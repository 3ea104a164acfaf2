import PathQuery.Json.Printer
import PathQuery.Json.Reader
import PathQuery.Proofs.Json.Thinning
import PathQuery.Proofs.Number.Numeral

/-!
# What is read

Every document that is read is `Readable`: no object has a key twice, and no
whole number has more digits than are read.  The lexer keeps this of the scalars
among its tokens and the reader of what is on its stack, one step after the
other (`readable_of_read?`).  Deleting nodes keeps it too (`Readable.without`).
-/

set_option autoImplicit false

namespace PathQuery

namespace Json

theorem elementsShort_iff {elements : List Json} :
    ElementsShort elements ↔ ∀ value ∈ elements, value.ShortNumbers := by
  induction elements with
  | nil => simp [ElementsShort]
  | cons value rest ih => simp [ElementsShort, ih]

theorem membersShort_iff {members : List (String × Json)} :
    MembersShort members ↔ ∀ member ∈ members, member.2.ShortNumbers := by
  induction members with
  | nil => simp [MembersShort]
  | cons member rest ih => simp [MembersShort, ih]

theorem ShortNumbers.child? {value child : Json} {key : Key} (short : value.ShortNumbers)
    (found : value.child? key = some child) : child.ShortNumbers := by
  unfold Json.child? at found
  split at found
  · rename_i members text
    have listed : (text, child) ∈ members := by
      obtain ⟨front, back, rfl, -⟩ := List.lookup_eq_some_iff.mp found
      simp
    exact membersShort_iff.mp short _ listed
  · exact elementsShort_iff.mp short child (List.mem_of_getElem? found)
  · cases found

theorem ShortNumbers.get? {document value : Json} {path : Path} (short : document.ShortNumbers)
    (found : document.get? path = some value) : value.ShortNumbers := by
  induction path generalizing document with
  | nil =>
    rw [get?_nil, Option.some.injEq] at found
    exact found ▸ short
  | cons key rest ih =>
    rw [get?_cons, Option.bind_eq_some_iff] at found
    obtain ⟨child, below, found⟩ := found
    exact ih (short.child? below) found

theorem ShortNumbers.resolve {document : Json} (short : document.ShortNumbers) (path : Path) :
    (document.resolve path).value.ShortNumbers := by
  rw [value_resolve]
  cases found : document.get? path with
  | none => trivial
  | some value => exact short.get? found

structure Readable (value : Json) : Prop where
  wellFormed : value.WellFormed
  short : value.ShortNumbers

theorem readable_arr_iff {elements : List Json} :
    (arr elements).Readable ↔ ∀ value ∈ elements, value.Readable := by
  constructor
  · intro readable value listed
    exact ⟨(elementsWellFormed_iff elements).mp readable.wellFormed value listed,
      elementsShort_iff.mp readable.short value listed⟩
  · intro each
    exact ⟨(elementsWellFormed_iff elements).mpr fun value listed => (each value listed).wellFormed,
      elementsShort_iff.mpr fun value listed => (each value listed).short⟩

theorem readable_obj_iff {members : List (String × Json)} :
    (obj members).Readable ↔
      (members.map Prod.fst).Nodup ∧ ∀ member ∈ members, member.2.Readable := by
  constructor
  · intro readable
    refine ⟨readable.wellFormed.1, fun member listed => ?_⟩
    exact ⟨(membersWellFormed_iff members).mp readable.wellFormed.2 member listed,
      membersShort_iff.mp readable.short member listed⟩
  · rintro ⟨nodup, each⟩
    exact ⟨⟨nodup, (membersWellFormed_iff members).mpr fun member listed =>
        (each member listed).wellFormed⟩,
      membersShort_iff.mpr fun member listed => (each member listed).short⟩

theorem Readable.arr_cons {elements : List Json} (readable : (arr elements).Readable)
    {value : Json} (first : value.Readable) : (arr (value :: elements)).Readable :=
  readable_arr_iff.mpr (List.forall_mem_cons.mpr ⟨first, readable_arr_iff.mp readable⟩)

theorem mem_setMember {key : String} {value : Json} {members : List (String × Json)}
    {member : String × Json} (listed : member ∈ setMember key value members) :
    member = (key, value) ∨ member ∈ members := by
  induction members with
  | nil => exact .inl (List.mem_singleton.mp listed)
  | cons first rest ih =>
    unfold setMember at listed
    split at listed
    · exact (List.mem_cons.mp listed).imp_right (List.mem_cons_of_mem _)
    · rcases List.mem_cons.mp listed with rfl | later
      · exact .inr (List.mem_cons_self ..)
      · exact (ih later).imp_right (List.mem_cons_of_mem _)

theorem Readable.setMember {members : List (String × Json)} (readable : (obj members).Readable)
    {value : Json} (further : value.Readable) (key : String) :
    (obj (setMember key value members)).Readable := by
  obtain ⟨nodup, each⟩ := readable_obj_iff.mp readable
  refine readable_obj_iff.mpr ⟨nodup_keys_setMember nodup, fun member listed => ?_⟩
  rcases mem_setMember listed with rfl | old
  · exact further
  · exact each member old

theorem ShortNumbers.without {value : Json} (short : value.ShortNumbers) (paths : List Path) :
    ∀ here : Path, (value.without paths here).ShortNumbers := by
  induction value using kindInduction with
  | scalar value scalar =>
    intro here
    cases value with
    | arr elements => cases scalar
    | obj members => cases scalar
    | _ => exact short
  | arr elements ih =>
    intro here
    have each := elementsShort_iff.mp short
    rw [without_arr, ShortNumbers, elementsShort_iff]
    intro changed listed
    obtain ⟨position, bound, rfl⟩ := List.mem_mapIdx.mp listed
    split
    · trivial
    · exact ih _ (List.getElem_mem bound) (each _ (List.getElem_mem bound)) _
  | obj members ih =>
    intro here
    have each := membersShort_iff.mp short
    rw [without_obj, ShortNumbers, membersShort_iff]
    intro changed listed
    obtain ⟨member, inside, rfl⟩ := List.mem_map.mp listed
    have kept := (List.mem_filter.mp inside).1
    exact ih member kept (each member kept) _

theorem Readable.without {value : Json} (readable : value.Readable) (paths : List Path)
    (here : Path) : (value.without paths here).Readable :=
  ⟨readable.wellFormed.without paths here, readable.short.without paths here⟩

end Json

namespace Numeral

theorem ofDigitChars_lt {digits : List Char} (inside : ∀ c ∈ digits, c.isDigit = true) :
    ∀ size : Nat, Nat.ofDigitChars 10 digits size < (size + 1) * 10 ^ digits.length := by
  induction digits with
  | nil => intro size; simp [Nat.ofDigitChars]
  | cons digit more ih =>
    intro size
    have small : digit.toNat - '0'.toNat < 10 := by
      have numeric := inside digit (List.mem_cons_self ..)
      simp only [Char.isDigit, Bool.and_eq_true, decide_eq_true_eq, ge_iff_le,
        UInt32.le_iff_toNat_le] at numeric
      have upper : digit.val.toNat ≤ 57 := numeric.2
      have zero : '0'.toNat = 48 := rfl
      have same : digit.toNat = digit.val.toNat := rfl
      omega
    calc Nat.ofDigitChars 10 (digit :: more) size
        = Nat.ofDigitChars 10 more (10 * size + (digit.toNat - '0'.toNat)) := rfl
      _ < (10 * size + (digit.toNat - '0'.toNat) + 1) * 10 ^ more.length :=
        ih (fun c listed => inside c (List.mem_cons_of_mem _ listed)) _
      _ ≤ ((size + 1) * 10) * 10 ^ more.length := Nat.mul_le_mul_right _ (by omega)
      _ = (size + 1) * 10 ^ (digit :: more).length := by
        rw [List.length_cons, Nat.pow_succ', Nat.mul_assoc]

theorem digits_of_whole? {text whole rest : List Char} (taken : whole? text = some (whole, rest)) :
    whole ≠ [] ∧ ∀ c ∈ whole, c.isDigit = true := by
  have digits : ∀ c ∈ (takeDigits text).1, c.isDigit = true := by
    rw [takeDigits, List.span_eq_takeWhile_dropWhile]
    exact List.all_eq_true.mp List.all_takeWhile
  unfold whole? at taken
  split at taken
  · cases taken
  · cases taken
  · rename_i parts some' _
    rw [Option.some.injEq] at taken
    rw [taken] at digits
    exact ⟨fun none => some' rest (by rw [taken, none]), digits⟩

theorem short_of_unsigned? {negative : Bool} {text : List Char} {value : Number}
    (reads : unsigned? negative text = some value) : value.Short := by
  rw [unsigned?, Option.bind_eq_bind, Option.bind_eq_some_iff] at reads
  obtain ⟨⟨whole, rest⟩, taken, reads⟩ := reads
  obtain ⟨some', digits⟩ := digits_of_whole? taken
  rw [Option.bind_eq_bind, Option.bind_eq_some_iff] at reads
  obtain ⟨⟨fraction, rest'⟩, -, reads⟩ := reads
  obtain ⟨exponent, -, reads⟩ := Option.bind_eq_some_iff.mp reads
  split at reads
  · split at reads
    · rename_i short
      rw [Option.some.injEq] at reads
      have below : Nat.ofDigitChars 10 whole 0 < 10 ^ whole.length := by
        simpa using ofDigitChars_lt digits 0
      have length := (Nat.length_toDigits_le_iff (by decide)
        (List.length_pos_of_ne_nil some')).mpr below
      rw [← reads, Number.Short]
      refine Nat.le_trans (Nat.le_of_eq ?_) (Nat.le_trans length short)
      cases negative <;> simp
    · cases reads
  · rw [Option.some.injEq] at reads
    rw [← reads]
    trivial

theorem short_of_read? {text : List Char} {value : Number} (reads : read? text = some value) :
    value.Short := by
  unfold read? at reads
  split at reads
  · exact short_of_unsigned? reads
  · exact short_of_unsigned? reads

end Numeral

theorem foldlM_keeps {α β : Type} {step : α → β → Option α} {inv : α → Prop} {items : List β}
    (keeps : ∀ item ∈ items, ∀ now next, inv now → step now item = some next → inv next) :
    ∀ {first last : α}, inv first → items.foldlM step first = some last → inv last := by
  induction items with
  | nil =>
    intro first last holds ends
    cases ends
    exact holds
  | cons item rest ih =>
    intro first last holds ends
    rw [List.foldlM_cons, Option.bind_eq_bind, Option.bind_eq_some_iff] at ends
    obtain ⟨next, one, ends⟩ := ends
    exact ih (fun later listed => keeps later (List.mem_cons_of_mem _ listed))
      (keeps item (List.mem_cons_self ..) first next holds one) ends

namespace Json

namespace Token

def Sound : Token → Prop
  | .scalar value => value.Readable
  | _ => True

theorem readable_of_scalar? {word : List Char} {value : Json} (known : scalar? word = some value) :
    value.Readable := by
  unfold scalar? at known
  iterate 6
    split at known
    · cases known
      exact ⟨trivial, trivial⟩
  obtain ⟨number, reads, rfl⟩ := Option.map_eq_some_iff.mp known
  exact ⟨trivial, Numeral.short_of_read? reads⟩

namespace Lexer

def Sound (lexer : Lexer) : Prop := ∀ token ∈ lexer.tokens, token.Sound

theorem sound_cons {tokens : List Token} (sound : ∀ token ∈ tokens, token.Sound) (token : Token)
    (one : token.Sound) : ∀ other ∈ token :: tokens, other.Sound :=
  List.forall_mem_cons.mpr ⟨one, sound⟩

theorem sound_of_punctuation? {c : Char} {token : Token} (known : punctuation? c = some token) :
    token.Sound := by
  cases token with
  | scalar value =>
    simp only [punctuation?] at known
    grind
  | _ => trivial

theorem start_sound {tokens : List Token} (sound : ∀ token ∈ tokens, token.Sound) (c : Char) :
    (start tokens c).Sound := by
  unfold start
  split
  · exact sound
  split
  · exact sound
  split
  · rename_i token known
    exact sound_cons sound token (sound_of_punctuation? known)
  · exact sound

theorem step_sound {lexer next : Lexer} {c : Char} (sound : lexer.Sound)
    (steps : lexer.step c = some next) : next.Sound := by
  obtain ⟨tokens, mode⟩ := lexer
  cases mode with
  | between => exact Option.some.inj steps ▸ start_sound sound c
  | word letters =>
    rw [step] at steps
    split at steps
    · obtain ⟨value, known, rfl⟩ := Option.map_eq_some_iff.mp steps
      exact start_sound (sound_cons sound (.scalar value) (readable_of_scalar? known)) c
    · exact Option.some.inj steps ▸ sound
  | string units =>
    rw [step] at steps
    split at steps
    · exact Option.some.inj steps ▸ sound_cons sound _ trivial
    split at steps
    · exact Option.some.inj steps ▸ sound
    split at steps
    · cases steps
    · exact Option.some.inj steps ▸ sound
  | escape units =>
    rw [step] at steps
    split at steps
    · exact Option.some.inj steps ▸ sound
    · obtain ⟨unit, -, rfl⟩ := Option.map_eq_some_iff.mp steps
      exact sound
  | hex units value missing =>
    obtain ⟨digit, -, rfl⟩ := Option.map_eq_some_iff.mp steps
    split <;> exact sound

theorem finish_sound {lexer : Lexer} {tokens : List Token} (sound : lexer.Sound)
    (ends : lexer.finish = some tokens) : ∀ token ∈ tokens, token.Sound := by
  have backwards : ∀ {found : List Token}, (∀ token ∈ found, token.Sound) →
      ∀ token ∈ found.reverse, token.Sound :=
    fun all token listed => all token (List.mem_reverse.mp listed)
  obtain ⟨found, mode⟩ := lexer
  cases mode with
  | between => exact Option.some.inj ends ▸ backwards sound
  | word letters =>
    obtain ⟨value, known, rfl⟩ := Option.map_eq_some_iff.mp ends
    exact backwards (sound_cons sound (.scalar value) (readable_of_scalar? known))
  | _ => cases ends

end Lexer

theorem sound_of_scan? {text : List Char} {tokens : List Token} (scans : scan? text = some tokens) :
    ∀ token ∈ tokens, token.Sound := by
  rw [scan?, Option.bind_eq_some_iff] at scans
  obtain ⟨lexer, runs, ends⟩ := scans
  have start : Lexer.Sound ⟨[], .between⟩ := List.forall_mem_nil _
  exact Lexer.finish_sound
    (foldlM_keeps (fun _ _ _ _ => Lexer.step_sound) start runs) ends

end Token

namespace Reader

def Frame.Sound : Frame → Prop
  | .array before => (arr before).Readable
  | .object before _ => (obj before).Readable

def Expectation.Sound : Expectation → Prop
  | .key before => (obj before).Readable
  | .colon before _ => (obj before).Readable
  | .ended found => found.Readable
  | _ => True

structure State.Sound (state : State) : Prop where
  stack : ∀ frame ∈ state.stack, frame.Sound
  expectation : state.expectation.Sound

theorem readable_nil : (arr []).Readable ∧ (obj []).Readable :=
  ⟨⟨trivial, trivial⟩, ⟨⟨List.nodup_nil, trivial⟩, trivial⟩⟩

theorem Frame.sound_cons {stack : List Frame} (sound : ∀ frame ∈ stack, frame.Sound)
    (frame : Frame) (one : frame.Sound) : ∀ other ∈ frame :: stack, other.Sound :=
  List.forall_mem_cons.mpr ⟨one, sound⟩

theorem startValue_sound {stack : List Frame} (sound : ∀ frame ∈ stack, frame.Sound)
    {token : Token} (one : token.Sound) {next : State}
    (steps : startValue stack token = some next) : next.Sound := by
  cases token with
  | openArray =>
    exact Option.some.inj steps ▸ ⟨Frame.sound_cons sound (.array []) readable_nil.1, trivial⟩
  | openObject => exact Option.some.inj steps ▸ ⟨sound, trivial⟩
  | text value => exact Option.some.inj steps ▸ ⟨sound, trivial, trivial⟩
  | scalar value => exact Option.some.inj steps ▸ ⟨sound, one⟩
  | _ => cases steps

theorem step_sound {state next : State} {token : Token} (sound : state.Sound) (one : token.Sound)
    (steps : step state token = some next) : next.Sound := by
  obtain ⟨stack, now⟩ := sound
  unfold step at steps
  split at steps
  · exact startValue_sound stack one steps
  · cases steps
    exact ⟨(List.forall_mem_cons.mp stack).2, readable_nil.1⟩
  · exact startValue_sound stack one steps
  · cases steps
    exact ⟨stack, readable_nil.2⟩
  · cases steps
    exact ⟨stack, readable_nil.2⟩
  · cases steps
    exact ⟨stack, now⟩
  · cases steps
    exact ⟨Frame.sound_cons stack (.object _ _) now, trivial⟩
  · cases steps
    obtain ⟨inner, outer⟩ := List.forall_mem_cons.mp stack
    exact ⟨Frame.sound_cons outer (.array _) (inner.arr_cons now), trivial⟩
  · cases steps
    obtain ⟨inner, outer⟩ := List.forall_mem_cons.mp stack
    have all := readable_arr_iff.mp (inner.arr_cons now)
    exact ⟨outer, readable_arr_iff.mpr fun value listed => all value (List.mem_reverse.mp listed)⟩
  · cases steps
    obtain ⟨inner, outer⟩ := List.forall_mem_cons.mp stack
    exact ⟨outer, inner.setMember now _⟩
  · cases steps
    obtain ⟨inner, outer⟩ := List.forall_mem_cons.mp stack
    exact ⟨outer, inner.setMember now _⟩
  · cases steps

theorem finish_sound {state : State} {value : Json} (sound : state.Sound)
    (ends : finish state = some value) : value.Readable := by
  unfold finish at ends
  split at ends
  · cases ends
    exact sound.expectation
  · cases ends

end Reader

theorem readable_of_ofTokens? {tokens : List Token} (sound : ∀ token ∈ tokens, token.Sound)
    {document : Json} (reads : ofTokens? tokens = some document) : document.Readable := by
  rw [ofTokens?, Option.bind_eq_some_iff] at reads
  obtain ⟨state, runs, ends⟩ := reads
  have start : Reader.State.Sound ⟨[], .value⟩ := ⟨List.forall_mem_nil _, trivial⟩
  exact Reader.finish_sound
    (foldlM_keeps (fun token listed _ _ sound' => Reader.step_sound sound' (sound token listed))
      start runs) ends

/-- Whatever text a document is read from, it is readable. -/
theorem readable_of_read? {text : String} {document : Json} (reads : read? text = some document) :
    document.Readable := by
  rw [read?, Option.bind_eq_some_iff] at reads
  obtain ⟨tokens, scans, reads⟩ := reads
  exact readable_of_ofTokens? (Token.sound_of_scan? scans) reads

end Json

end PathQuery
