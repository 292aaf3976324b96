import FrameLog.Proofs.Json.Reader

/-!
# Records as texts

What is read from an object or an array is said of the text alone: which members it has and where the value of each
begins (`RecordText`), and what each of them is read as (`Says`). A record is read from the texts that are one
(`gives_readRecord`), and what its parts are is what the members of their names say (`Steps.said`).
-/

namespace FrameLog.Json

variable {α β σ : Type} {text rest : List Char} {x : α}

/-! ## What is between brackets -/

/-- A value in an object or an array, under the name that it has there: `value` begins with it, `rest` follows it. -/
structure Member where
  key : String
  value : List Char
  rest : List Char

/-- A key in quotes and a colon stand before the value. -/
def Member.BehindKey (m : Member) (text : List Char) : Prop :=
  ∃ quoted after, skipSpace text = '"' :: quoted ∧ Gives readQuoted quoted m.key after ∧ skipSpace after = ':' :: m.value

/-- Only space stands before the value, which is not the end of an array. -/
def Member.BehindSpace (m : Member) (text : List Char) : Prop :=
  ∃ c more, c ≠ ']' ∧ m.value = c :: more ∧ skipSpace text = c :: more

section
variable (begins : Member → List Char → Prop) (close : Char)

/-- Members with a comma before each, up to a bracket. -/
inductive Continued : List Char → List Member → List Char → Prop
  | stop {text rest : List Char} (bracket : skipSpace text = close :: rest) : Continued text [] rest
  | more {m : Member} {ms : List Member} {text later rest : List Char} (comma : skipSpace text = ',' :: later)
      (here : begins m later) (others : Continued m.rest ms rest) : Continued text (m :: ms) rest

/-- Members with a comma between them, up to a bracket. -/
inductive Enclosed : List Char → List Member → List Char → Prop
  | none {text rest : List Char} (bracket : skipSpace text = close :: rest) : Enclosed text [] rest
  | some {m : Member} {ms : List Member} {text rest : List Char} (here : begins m text)
      (others : Continued begins close m.rest ms rest) : Enclosed text (m :: ms) rest

end

theorem enclosed_of_continued {begins : Member → List Char → Prop} {close : Char} {ms : List Member} (hclose : close ≠ ',')
    (h : Continued begins close (',' :: text) ms rest) : Enclosed begins close text ms rest := by
  rcases h with ⟨bracket⟩ | ⟨comma, here, others⟩
  · exact absurd (List.cons.inj bracket).1.symm hclose
  · cases comma
    exact .some here others

/-- An object with these members, or an array of values to which the names belong in their order. -/
def RecordText (names : List String) (text : List Char) (ms : List Member) (rest : List Char) : Prop :=
  ∃ inner, skipSpace text = '\x7b' :: inner ∧ Enclosed Member.BehindKey '\x7d' inner ms rest ∨
    skipSpace text = '[' :: inner ∧ Enclosed Member.BehindSpace ']' inner ms rest ∧ ms.map Member.key <+: names

/-! ## Objects -/

/-- Members are read one after another, each in the state that those before it have made. -/
inductive Steps (member : String → σ → Except Problem (Reader σ)) : σ → List Member → σ → Prop
  | nil {s : σ} : Steps member s [] s
  | cons {s t u : σ} {m : Member} {ms : List Member} {r : Reader σ} (settled : member m.key s = .ok r)
      (read : Gives r m.value t m.rest) (others : Steps member t ms u) : Steps member s (m :: ms) u

variable {member : String → σ → Except Problem (Reader σ)} {s t u : σ} {m : Member} {ms : List Member}

theorem Member.BehindKey.shorter (h : m.BehindKey text) : m.value.length < text.length := by
  obtain ⟨quoted, after, hquote, hkey, hcolon⟩ := h
  exact Nat.lt_trans (length_lt_of_skipSpace hcolon) (Nat.lt_trans hkey.shorter (length_lt_of_skipSpace hquote))

/-- A member is read, and then the bracket that closes the object, or a comma and more members. -/
theorem gives_readMembers_iff : Gives (readMembers member s) text u rest ↔
    ∃ (m : Member) (r : Reader σ) (t : σ), m.BehindKey text ∧ member m.key s = .ok r ∧ Gives r m.value t m.rest ∧
      (skipSpace m.rest = '\x7d' :: rest ∧ t = u ∨
        ∃ later, skipSpace m.rest = ',' :: later ∧ Gives (readMembers member t) later u rest) := by
  constructor
  · intro h
    unfold Gives readMembers at h
    split at h
    · simp at h
    · next quoted hquote =>
        split at h
        · simp at h
        rename_i key hkey
        split at h
        · simp at h
        rename_i r hr
        split at h
        · simp at h
        rename_i colon hcolon
        split at h
        · simp at h
        rename_i value hvalue
        have hbehind : Member.BehindKey ⟨key.value, colon.rest, value.rest⟩ text :=
          ⟨quoted, key.rest, hquote, yields_of_eq_ok hkey, gives_readColon.mp (yields_of_eq_ok hcolon)⟩
        refine ⟨_, r, value.value, hbehind, hr, yields_of_eq_ok hvalue, ?_⟩
        dsimp only at h
        split at h
        · simp at h
        · next hstop => simp_all
        · next later hcomma =>
            split at h
            · simp at h
            rename_i all hall
            obtain ⟨rfl, rfl⟩ := yields_ok.mp h
            exact .inr ⟨_, hcomma, yields_of_eq_ok hall⟩
        · simp at h
    · simp at h
  · rintro ⟨⟨key, value, after⟩, r, t, ⟨quoted, behind, hquote, ⟨_, hkey⟩, hcolon⟩, hr, ⟨_, hread⟩, hrest⟩
    obtain ⟨_, hcolon⟩ := gives_readColon.mpr hcolon
    unfold Gives readMembers
    split
    · simp_all
    · next quoted' hquote' =>
        cases hquote.symm.trans hquote'
        simp only [hkey, hr, hcolon, hread]
        rcases hrest with ⟨hstop, rfl⟩ | ⟨later, hcomma, _, hlater⟩
        · split <;> simp_all
        · split
          · simp_all
          · simp_all
          · next later' hcomma' =>
              cases hcomma.symm.trans hcomma'
              simp [hlater, Consumed.widen]
          · simp_all
    · simp_all

theorem gives_readMembers : Gives (readMembers member s) text u rest ↔
    ∃ m ms, m.BehindKey text ∧ Continued Member.BehindKey '\x7d' m.rest ms rest ∧ Steps member s (m :: ms) u := by
  constructor
  · intro h
    -- Each member leaves less of the text, so the induction is on its length.
    induction hlength : text.length using Nat.strongRecOn generalizing text s with
    | _ n ih =>
        obtain ⟨m, r, t, hbehind, hr, hread, ⟨hstop, rfl⟩ | ⟨later, hcomma, hlater⟩⟩ := gives_readMembers_iff.mp h
        · exact ⟨m, [], hbehind, .stop hstop, .cons hr hread .nil⟩
        · have hshorter : later.length < n := by
            have := length_lt_of_skipSpace hcomma
            have := hread.shorter
            have := hbehind.shorter
            omega
          obtain ⟨m', ms, hbegins, hrest, hsteps⟩ := ih later.length hshorter hlater rfl
          exact ⟨m, m' :: ms, hbehind, .more hcomma hbegins hrest, .cons hr hread hsteps⟩
  · rintro ⟨m, ms, hbehind, hrest, hsteps⟩
    generalize hafter : m.rest = after at hrest
    induction hrest generalizing m text s with
    | stop bracket =>
        obtain - | ⟨hr, hread, - | -⟩ := hsteps
        exact gives_readMembers_iff.mpr ⟨m, _, _, hbehind, hr, hread, .inl ⟨hafter ▸ bracket, rfl⟩⟩
    | more comma here others ih =>
        obtain - | ⟨hr, hread, hothers⟩ := hsteps
        exact gives_readMembers_iff.mpr ⟨m, _, _, hbehind, hr, hread, .inr ⟨_, hafter ▸ comma, ih _ here hothers rfl⟩⟩

theorem gives_readObject : Gives (readObject member s) text u rest ↔
    ∃ ms, Enclosed Member.BehindKey '\x7d' text ms rest ∧ Steps member s ms u := by
  unfold Gives readObject
  split
  · next later hstop =>
      rw [yields_ok]
      constructor
      · rintro ⟨rfl, rfl⟩
        exact ⟨[], .none hstop, .nil⟩
      · rintro ⟨ms, ⟨bracket⟩ | ⟨⟨_, _, hquote, -⟩, -⟩, hsteps⟩
        · cases hstop.symm.trans bracket
          cases hsteps
          exact ⟨rfl, rfl⟩
        · cases hstop.symm.trans hquote
  · next hmore =>
      constructor
      · intro h
        obtain ⟨m, ms, hbehind, hrest, hsteps⟩ := gives_readMembers.mp h
        exact ⟨m :: ms, .some hbehind hrest, hsteps⟩
      · rintro ⟨ms, ⟨bracket⟩ | ⟨here, others⟩, hsteps⟩
        · exact absurd bracket (hmore _)
        · exact gives_readMembers.mpr ⟨_, _, here, others, hsteps⟩

/-! ## Arrays -/

variable {fields all : List (RecordField σ)}

/-- Reading the field leaves a part of the state as it is. -/
def RecordField.Keeps (f : RecordField σ) (part : σ → β) : Prop :=
  ∀ s text t rest, Gives (f.read s) text t rest → part t = part s

/-- Only the field of that name changes the part. -/
def Owns (fields : List (RecordField σ)) (name : String) (part : σ → β) : Prop :=
  ∀ f ∈ fields, f.name ≠ name → f.Keeps part

/-- Fields of different names do not meddle with each other. -/
structure Independent (fields : List (RecordField σ)) : Prop where
  distinct : (fields.map RecordField.name).Nodup
  kept : ∀ f ∈ fields, Owns fields f.name f.isSet

theorem gives_readEnd : Gives (readEnd s) text t rest ↔ skipSpace text = ']' :: rest ∧ s = t := by
  rw [readEnd, gives_spaced]
  constructor
  · rintro ⟨c, more, hfound, hyields⟩
    split at hyields
    · next hbracket => simp_all [Consumed.one]
    · simp at hyields
  · rintro ⟨hfound, rfl⟩
    exact ⟨_, _, hfound, by simp [Consumed.one]⟩

theorem gives_readMoreFields_cons {field : RecordField σ} : Gives (readMoreFields s (field :: fields)) text u rest ↔
    skipSpace text = ']' :: rest ∧ s = u ∨ ∃ (later : List Char) (m : Member) (t : σ), skipSpace text = ',' :: later ∧
      m.BehindSpace later ∧ m.key = field.name ∧ Gives (field.read s) m.value t m.rest ∧
      Gives (readMoreFields t fields) m.rest u rest := by
  rw [readMoreFields, gives_spaced]
  constructor
  · rintro ⟨c, more, hfound, hyields⟩
    split at hyields
    · next hbracket => simp_all [Consumed.one]
    split at hyields
    · next hcomma =>
        subst hcomma
        split at hyields
        · simp at hyields
        rename_i next hnext
        obtain ⟨d, after, hafter, hread⟩ := gives_spaced.mp (yields_of_eq_ok hnext)
        split at hread
        · simp at hread
        rename_i hd
        rw [yields_widen] at hyields
        exact .inr ⟨more, ⟨field.name, d :: after, next.rest⟩, next.value, hfound, ⟨d, after, hd, rfl, hafter⟩, rfl, hread,
          hyields⟩
    · simp at hyields
  · rintro (⟨hfound, rfl⟩ | ⟨later, ⟨_, _, after⟩, t, hfound, ⟨d, more, hd, rfl, hafter⟩, rfl, hread, hmore⟩)
    · exact ⟨_, _, hfound, by simp [Consumed.one]⟩
    · obtain ⟨_, hitem⟩ : Gives (spaced fun d more => if d = ']' then .error .malformed else field.read s (d :: more))
          later t after := gives_spaced.mpr ⟨d, more, hafter, by rwa [if_neg hd]⟩
      refine ⟨_, _, hfound, ?_⟩
      rw [if_neg (by decide), if_pos rfl, hitem]
      simpa using hmore

/-- The first field is read as if it came behind a comma. -/
theorem gives_readFields_cons {field : RecordField σ} : Gives (readFields s (field :: fields)) text u rest ↔
    skipSpace text = ']' :: rest ∧ s = u ∨ Gives (readMoreFields s (field :: fields)) (',' :: text) u rest := by
  have hcomma : skipSpace (',' :: text) = ',' :: text := rfl
  rw [readFields, gives_spaced, gives_readMoreFields_cons, hcomma]
  constructor
  · rintro ⟨c, more, hfound, hyields⟩
    split at hyields
    · next hbracket => simp_all [Consumed.one]
    rename_i hc
    split at hyields
    · simp at hyields
    rename_i next hnext
    rw [yields_widen] at hyields
    exact .inr (.inr ⟨text, ⟨field.name, c :: more, next.rest⟩, next.value, rfl, ⟨c, more, hc, rfl, hfound⟩, rfl,
      yields_of_eq_ok hnext, hyields⟩)
  · rintro (⟨hfound, rfl⟩ | ⟨⟨⟩, -⟩ | ⟨_, ⟨_, _, after⟩, t, ⟨⟩, ⟨d, more, hd, rfl, hfound⟩, rfl, ⟨_, hread⟩, hmore⟩)
    · exact ⟨_, _, hfound, by simp [Consumed.one]⟩
    · refine ⟨_, _, hfound, ?_⟩
      rw [if_neg hd, hread]
      simpa using hmore

/-- A member is read as the field of its name, if that is not set, and passed over if there is none. -/
theorem recordMember_eq_ok {key : String} {r : Reader σ} (h : Independent all) : recordMember all key s = .ok r ↔
    (∃ f ∈ all, f.name = key ∧ f.isSet s = false ∧ f.read s = r) ∨
      (∀ f ∈ all, f.name ≠ key) ∧ (fun input => (skipValue input).map (.map fun _ => s)) = r := by
  rw [recordMember]
  cases hfound : all.find? (·.name = key) with
  | none =>
      have hnone : ∀ f ∈ all, f.name ≠ key := by simpa using List.find?_eq_none.mp hfound
      constructor
      · intro heq
        exact .inr ⟨hnone, Except.ok.inj heq⟩
      · rintro (⟨f, hf, hname, -⟩ | ⟨-, rfl⟩)
        · exact absurd hname (hnone f hf)
        · rfl
  | some f =>
      have hf := List.mem_of_find?_eq_some hfound
      have hname : f.name = key := by simpa using List.find?_some hfound
      constructor
      · intro heq
        simp only at heq
        split at heq
        · cases heq
        · next hset => exact .inl ⟨f, hf, hname, by simpa using hset, Except.ok.inj heq⟩
      · rintro (⟨g, hg, hgname, hset, rfl⟩ | ⟨hnone, -⟩)
        · cases List.inj_on_of_nodup_map h.distinct hf hg (hname.trans hgname.symm)
          simp [hset]
        · exact absurd hname (hnone f hf)

theorem recordMember_field (h : Independent all) {f : RecordField σ} (hf : f ∈ all) {r : Reader σ} :
    recordMember all f.name s = .ok r ↔ f.isSet s = false ∧ f.read s = r := by
  rw [recordMember_eq_ok h]
  constructor
  · rintro (⟨g, hg, hname, hread⟩ | ⟨hnone, -⟩)
    · cases List.inj_on_of_nodup_map h.distinct hf hg hname.symm
      exact hread
    · exact absurd rfl (hnone f hf)
  · exact fun hread => .inl ⟨f, hf, rfl, hread⟩

/-- One field of an array is read, and the others are still to be read. -/
theorem steps_field (h : Independent all) {f : RecordField σ} (hsublist : (f :: fields).Sublist all)
    (hfresh : ∀ g ∈ f :: fields, g.isSet s = false) (hkey : m.key = f.name) (hread : Gives (f.read s) m.value t m.rest) :
    recordMember all m.key s = .ok (f.read s) ∧ ∀ g ∈ fields, g.isSet t = false := by
  have hf : f ∈ all := hsublist.subset List.mem_cons_self
  refine ⟨?_, fun g hg => ?_⟩
  · rw [hkey, recordMember_field h hf]
    exact ⟨hfresh f List.mem_cons_self, rfl⟩
  · have hdistinct := (h.distinct.sublist (hsublist.map _))
    rw [List.map_cons, List.nodup_cons] at hdistinct
    have hne : f.name ≠ g.name := fun heq => hdistinct.1 (heq ▸ List.mem_map_of_mem hg)
    rw [h.kept g (hsublist.subset (List.mem_cons_of_mem _ hg)) f hf hne _ _ _ _ hread]
    exact hfresh g (List.mem_cons_of_mem _ hg)

theorem gives_readMoreFields (h : Independent all) (hsublist : fields.Sublist all)
    (hfresh : ∀ f ∈ fields, f.isSet s = false) : Gives (readMoreFields s fields) text u rest ↔ ∃ ms, Continued Member.BehindSpace ']' text ms rest ∧
      ms.map Member.key <+: fields.map RecordField.name ∧ Steps (recordMember all) s ms u := by
  induction fields generalizing s text with
  | nil =>
      rw [readMoreFields, gives_readEnd]
      constructor
      · rintro ⟨hstop, rfl⟩
        exact ⟨[], .stop hstop, List.nil_prefix, .nil⟩
      · rintro ⟨ms, hrest, hkeys, hsteps⟩
        obtain rfl : ms = [] := by simpa using hkeys
        obtain ⟨bracket⟩ := hrest
        cases hsteps
        exact ⟨bracket, rfl⟩
  | cons f fields ih =>
      have hlater : fields.Sublist all := (List.sublist_cons_self f fields).trans hsublist
      rw [gives_readMoreFields_cons]
      constructor
      · rintro (⟨hstop, rfl⟩ | ⟨later, m, t, hcomma, hhere, hkey, hread, hmore⟩)
        · exact ⟨[], .stop hstop, List.nil_prefix, .nil⟩
        · obtain ⟨hsettled, hunset⟩ := steps_field h hsublist hfresh hkey hread
          obtain ⟨ms, hrest, hkeys, hsteps⟩ := (ih hlater hunset).mp hmore
          exact ⟨m :: ms, .more hcomma hhere hrest, by simpa [hkey] using hkeys, .cons hsettled hread hsteps⟩
      · rintro ⟨ms, ⟨bracket⟩ | ⟨comma, here, others⟩, hkeys, hsteps⟩
        · cases hsteps
          exact .inl ⟨bracket, rfl⟩
        · obtain - | ⟨hr, hread, hothers⟩ := hsteps
          rw [List.map_cons, List.map_cons, List.cons_prefix_cons] at hkeys
          rw [hkeys.1] at hr
          obtain ⟨-, rfl⟩ := (recordMember_field h (hsublist.subset List.mem_cons_self)).mp hr
          obtain ⟨-, hunset⟩ := steps_field h hsublist hfresh hkeys.1 hread
          exact .inr ⟨_, _, _, comma, here, hkeys.1, hread, (ih hlater hunset).mpr ⟨_, others, hkeys.2, hothers⟩⟩

theorem gives_readFields (h : Independent all) (hfresh : ∀ f ∈ all, f.isSet s = false) :
    Gives (readFields s all) text u rest ↔ ∃ ms, Enclosed Member.BehindSpace ']' text ms rest ∧
      ms.map Member.key <+: all.map RecordField.name ∧ Steps (recordMember all) s ms u := by
  cases all with
  | nil =>
      rw [readFields, gives_readEnd]
      constructor
      · rintro ⟨hstop, rfl⟩
        exact ⟨[], .none hstop, List.nil_prefix, .nil⟩
      · rintro ⟨ms, henclosed, hkeys, hsteps⟩
        obtain rfl : ms = [] := by simpa using hkeys
        obtain ⟨bracket⟩ := henclosed
        cases hsteps
        exact ⟨bracket, rfl⟩
  | cons f fields =>
      rw [gives_readFields_cons, gives_readMoreFields h (List.Sublist.refl _) hfresh]
      constructor
      · rintro (⟨hstop, rfl⟩ | ⟨ms, hrest, hkeys, hsteps⟩)
        · exact ⟨[], .none hstop, List.nil_prefix, .nil⟩
        · exact ⟨ms, enclosed_of_continued (by decide) hrest, hkeys, hsteps⟩
      · rintro ⟨ms, ⟨bracket⟩ | ⟨here, others⟩, hkeys, hsteps⟩
        · cases hsteps
          exact .inl ⟨bracket, rfl⟩
        · exact .inr ⟨_, .more rfl here others, hkeys, hsteps⟩

/-! ## Records -/

/-- A record is read member by member, from an object by their names and from an array by their places. -/
theorem gives_readRecord (h : Independent all) (hfresh : ∀ f ∈ all, f.isSet s = false) :
    Gives (readRecord all s) text u rest ↔
      ∃ ms, RecordText (all.map RecordField.name) text ms rest ∧ Steps (recordMember all) s ms u := by
  rw [readRecord, gives_spaced]
  constructor
  · rintro ⟨c, inner, hfound, hyields⟩
    split at hyields
    · next hbrace =>
        subst hbrace
        rw [Reader.behind, yields_behind] at hyields
        obtain ⟨ms, henclosed, hsteps⟩ := gives_readObject.mp hyields
        exact ⟨ms, ⟨inner, .inl ⟨hfound, henclosed⟩⟩, hsteps⟩
    split at hyields
    · next hbracket =>
        subst hbracket
        rw [Reader.behind, yields_behind] at hyields
        obtain ⟨ms, henclosed, hkeys, hsteps⟩ := (gives_readFields h hfresh).mp hyields
        exact ⟨ms, ⟨inner, .inr ⟨hfound, henclosed, hkeys⟩⟩, hsteps⟩
    · simp at hyields
  · rintro ⟨ms, ⟨inner, ⟨hfound, henclosed⟩ | ⟨hfound, henclosed, hkeys⟩⟩, hsteps⟩
    · refine ⟨_, inner, hfound, ?_⟩
      rw [if_pos rfl, Reader.behind, yields_behind]
      exact gives_readObject.mpr ⟨ms, henclosed, hsteps⟩
    · refine ⟨_, inner, hfound, ?_⟩
      rw [if_neg (by decide), if_pos rfl, Reader.behind, yields_behind]
      exact (gives_readFields h hfresh).mpr ⟨ms, henclosed, hkeys, hsteps⟩

/-! ## What is said of a name -/

/-- What the members say of a name: one has it, and its value is read as that; or none has it. -/
def Says (ms : List Member) (name : String) (reads : List Char → α → List Char → Prop) : Option α → Prop
  | none => ∀ m ∈ ms, m.key ≠ name
  | some x => ∃ m, ms.filter (·.key = name) = [m] ∧ reads m.value x m.rest

theorem Says.reads {ms : List Member} {name : String} {reads : List Char → α → List Char → Prop} {o : Option α}
    (h : Says ms name reads o) {m : Member} (hm : m ∈ ms) (hname : m.key = name) : ∃ x, reads m.value x m.rest := by
  cases o with
  | none => exact absurd hname (h m hm)
  | some x =>
      obtain ⟨m', hfilter, hx⟩ := h
      have hmem : m ∈ ms.filter (·.key = name) := List.mem_filter.mpr ⟨hm, by simpa using hname⟩
      rw [hfilter, List.mem_singleton] at hmem
      exact ⟨x, hmem ▸ hx⟩

theorem Says.length_le {ms : List Member} {name : String} {reads : List Char → α → List Char → Prop} {o : Option α}
    (h : Says ms name reads o) : (ms.filter (·.key = name)).length ≤ 1 := by
  cases o with
  | none =>
      rw [List.filter_eq_nil_iff.mpr fun m hm => by simpa using h m hm]
      exact Nat.zero_le _
  | some x =>
      obtain ⟨m', hfilter, -⟩ := h
      rw [hfilter]
      exact Nat.le_refl _

theorem Says.unique {ms : List Member} {name : String} {r : Reader α} {o o' : Option α} (h : Says ms name (Gives r) o)
    (h' : Says ms name (Gives r) o') : o = o' := by
  cases o with
  | none =>
      cases o' with
      | none => rfl
      | some x =>
          obtain ⟨m, hfilter, -⟩ := h'
          have hm := List.mem_filter.mp (hfilter ▸ List.mem_singleton_self m)
          exact absurd (by simpa using hm.2) (h m hm.1)
  | some x =>
      obtain ⟨m, hfilter, hx⟩ := h
      cases o' with
      | none =>
          have hm := List.mem_filter.mp (hfilter ▸ List.mem_singleton_self m)
          exact absurd (by simpa using hm.2) (h' m hm.1)
      | some y =>
          obtain ⟨m', hfilter', hy⟩ := h'
          cases hfilter.symm.trans hfilter'
          rw [(hx.unique hy).1]

theorem says_congr {ms : List Member} {name : String} {reads reads' : List Char → α → List Char → Prop} {o : Option α}
    (h : ∀ text x rest, reads text x rest ↔ reads' text x rest) : Says ms name reads o ↔ Says ms name reads' o := by
  cases o with
  | none => exact Iff.rfl
  | some x => exact exists_congr fun m => and_congr_right fun _ => h _ _ _

/-- The members of other names can be passed over. -/
def PassesOver (ms : List Member) (names : List String) : Prop :=
  ∀ m ∈ ms, m.key ∉ names → Gives skipValue m.value () m.rest

/-- The members are such that the field is read from one of them at most. -/
structure RecordField.ReadFrom (f : RecordField σ) (ms : List Member) : Prop where
  reads : ∀ m ∈ ms, m.key = f.name → ∀ s, ∃ t, Gives (f.read s) m.value t m.rest
  once : (ms.filter (·.key = f.name)).length ≤ 1

theorem Says.readFrom {name : String} {part : σ → Option α} {put : σ → α → σ} {r : Reader α} {o : Option α}
    (h : Says ms name (Gives r) o) : (RecordField.of name part put r).ReadFrom ms where
  reads m hm hname s := by
    obtain ⟨x, hx⟩ := h.reads hm hname
    exact ⟨put s x, yields_map.mpr ⟨x, hx, rfl⟩⟩
  once := h.length_le

/-! ## Parts of a record -/

theorem keeps_of {name : String} {part : σ → Option α} {put : σ → α → σ} {r : Reader α} {other : σ → β}
    (h : ∀ s x, other (put s x) = other s) : (RecordField.of name part put r).Keeps other := by
  intro s text t rest hread
  obtain ⟨x, -, rfl⟩ := yields_map.mp hread
  exact h s x

/-- Reading an object or array of the fields reads this part of its state with `r`, under that name. -/
def IsPart (fields : List (RecordField σ)) (name : String) (part : σ → Option α) (r : Reader α) : Prop :=
  Owns fields name part ∧ ∃ put, .of name part put r ∈ fields ∧ ∀ s x, part (put s x) = some x

theorem IsPart.keeps_isSet {fields : List (RecordField σ)} {f : RecordField σ} {part : σ → Option α} {r : Reader α}
    (h : IsPart fields f.name part r) (hset : f.isSet = fun s => (part s).isSome) : Owns fields f.name f.isSet := by
  intro g hg hne s text t rest hread
  rw [hset]
  exact congrArg Option.isSome (h.1 g hg hne s text t rest hread)

theorem Steps.said {name : String} {part : σ → Option α} {r : Reader α} (h : Independent all)
    (hpart : IsPart all name part r) (hsteps : Steps (recordMember all) s ms u) :
    (part s = none → Says ms name (Gives r) (part u)) ∧
      ∀ x, part s = some x → part u = some x ∧ ∀ m ∈ ms, m.key ≠ name := by
  obtain ⟨howns, put, hfield, hput⟩ := hpart
  induction hsteps with
  | nil =>
      refine ⟨fun hnone => ?_, fun x hx => ⟨hx, by simp⟩⟩
      rw [hnone]
      intro m hm
      cases hm
  | @cons s t u m ms r' settled read others ih =>
      by_cases hkey : m.key = name
      · obtain ⟨hunset, rfl⟩ := (recordMember_field h hfield).mp (hkey ▸ settled)
        obtain ⟨x, hx, rfl⟩ := yields_map.mp read
        obtain ⟨hu, hothers⟩ := ih.2 x (hput s x)
        have hnone : part s = none := by simpa [RecordField.of] using hunset
        refine ⟨fun _ => ?_, fun y hy => by simp [hnone] at hy⟩
        rw [hu]
        refine ⟨m, ?_, hx⟩
        simpa [hkey] using hothers
      · have hpart : part t = part s := by
          rcases (recordMember_eq_ok h).mp settled with ⟨f, hf, hname, -, rfl⟩ | ⟨-, rfl⟩
          · exact howns f hf (hname ▸ hkey) _ _ _ _ read
          · obtain ⟨_, -, rfl⟩ := yields_map.mp read
            rfl
        rw [← hpart]
        refine ⟨fun hnone => ?_, fun x hx => ?_⟩
        · have hsays := ih.1 hnone
          cases hu : part u <;> simp_all [Says]
        · obtain ⟨hu, hothers⟩ := ih.2 x hx
          exact ⟨hu, by simpa using ⟨hkey, hothers⟩⟩

theorem Steps.passesOver (h : Independent all) (hsteps : Steps (recordMember all) s ms u) :
    PassesOver ms (all.map RecordField.name) := by
  induction hsteps with
  | nil =>
      intro m hm
      cases hm
  | cons settled read others ih =>
      intro m hm hnone
      rcases List.mem_cons.mp hm with rfl | hm
      · rcases (recordMember_eq_ok h).mp settled with ⟨f, hf, hname, -⟩ | ⟨-, rfl⟩
        · exact absurd (hname ▸ List.mem_map_of_mem hf) hnone
        · obtain ⟨_, hskip, -⟩ := yields_map.mp read
          exact hskip
      · exact ih m hm hnone

/-- A field that is set may not be there once more. -/
theorem exists_steps_of_once (h : Independent all) (hread : ∀ f ∈ all, ∀ m ∈ ms, m.key = f.name → ∀ s, ∃ t,
    Gives (f.read s) m.value t m.rest) (hpass : PassesOver ms (all.map RecordField.name))
    (honce : ∀ f ∈ all, (ms.filter (·.key = f.name)).length ≤ if f.isSet s then 0 else 1) :
    ∃ u, Steps (recordMember all) s ms u := by
  induction ms generalizing s with
  | nil => exact ⟨s, .nil⟩
  | cons m ms ih =>
      have ih {t : σ} := @ih t (fun f hf m hm => hread f hf m (List.mem_cons_of_mem _ hm))
        fun m hm => hpass m (List.mem_cons_of_mem _ hm)
      by_cases hknown : m.key ∈ all.map RecordField.name
      · obtain ⟨f, hf, hname⟩ := List.mem_map.mp hknown
        obtain ⟨t, ht⟩ := hread f hf m List.mem_cons_self hname.symm s
        have hlength := honce f hf
        rw [List.filter_cons_of_pos (by simp [hname]), List.length_cons] at hlength
        have hset : f.isSet s = false := by
          by_contra hset
          rw [if_pos (by simpa using hset)] at hlength
          omega
        rw [hset, if_neg Bool.false_ne_true] at hlength
        obtain ⟨u, hu⟩ := ih (t := t) fun g hg => by
          by_cases hne : f.name = g.name
          · rw [← hne, List.length_eq_zero_iff.mp (Nat.le_zero.mp (Nat.le_of_succ_le_succ hlength))]
            exact Nat.zero_le _
          · have hother := honce g hg
            rw [h.kept g hg f hf hne _ _ _ _ ht]
            rwa [List.filter_cons_of_neg (by simpa [← hname] using hne)] at hother
        exact ⟨u, .cons (hname ▸ (recordMember_field h hf).mpr ⟨hset, rfl⟩) ht hu⟩
      · have hnone : ∀ f ∈ all, f.name ≠ m.key := fun f hf hname => hknown (hname ▸ List.mem_map_of_mem hf)
        obtain ⟨u, hu⟩ := ih (t := s) fun g hg => by simpa [(hnone g hg).symm] using honce g hg
        exact ⟨u, .cons ((recordMember_eq_ok h).mpr (.inr ⟨hnone, rfl⟩))
          (yields_map.mpr ⟨(), hpass m List.mem_cons_self hknown, rfl⟩) hu⟩

/-- A record is read where its fields are read and what else there is can be passed over. -/
theorem exists_steps (h : Independent all) (hfresh : ∀ f ∈ all, f.isSet s = false) (hread : ∀ f ∈ all, f.ReadFrom ms)
    (hpass : PassesOver ms (all.map RecordField.name)) : ∃ u, Steps (recordMember all) s ms u :=
  exists_steps_of_once h (fun f hf => (hread f hf).reads) hpass fun f hf => by
    rw [hfresh f hf]
    exact (hread f hf).once

theorem gives_finish {r : Reader σ} {complete : σ → α} :
    Gives (r.finish fun s => some (complete s)) text x rest ↔ ∃ s, Gives r text s rest ∧ complete s = x := by
  unfold Gives Reader.finish
  cases r text with
  | error e => simp
  | ok c =>
      simp only [yields_ok, Consumed.map]
      exact ⟨fun ⟨hx, hrest⟩ => ⟨c.value, ⟨rfl, hrest⟩, hx⟩, fun ⟨_, ⟨hs, hrest⟩, hx⟩ => ⟨hs ▸ hx, hrest⟩⟩

end FrameLog.Json
