import PathQuery.Proofs.Json.Escape
import PathQuery.Proofs.Json.Reading

/-!
# Documents read back

The text of a document is scanned as the tokens of the document (`tokens`), and
these are read as the document again, whether characters outside ASCII or
slashes are escaped or not (`read?_chars`).  Texts are scanned piece by piece:
what a piece is scanned as does not depend on what stands before it, and of what
stands behind it only on whether a word goes on there (`ScansTo`).
-/

set_option autoImplicit false

namespace PathQuery

namespace Json

mutual

def tokens : Json → List Token
  | .str value => [.text value]
  | .arr elements => .openArray :: (elementsTokens elements ++ [.closeArray])
  | .obj members => .openObject :: (membersTokens members ++ [.closeObject])
  | value => [.scalar value]

def elementsTokens : List Json → List Token
  | [] => []
  | value :: rest => tokens value ++ if rest.isEmpty then [] else .comma :: elementsTokens rest

def membersTokens : List (String × Json) → List Token
  | [] => []
  | (key, value) :: rest =>
    .text key :: .colon :: (tokens value ++
      if rest.isEmpty then [] else .comma :: membersTokens rest)

end

namespace Token

def Lexer.scan? (lexer : Lexer) (text : List Char) : Option (List Token) :=
  (text.foldlM Lexer.step lexer).bind Lexer.finish

theorem Lexer.scan?_append {lexer next : Lexer} {front : List Char}
    (reads : front.foldlM Lexer.step lexer = some next) (rest : List Char) :
    lexer.scan? (front ++ rest) = next.scan? rest := by
  rw [scan?, List.foldlM_append, reads]
  rfl

theorem Lexer.scan?_cons {lexer next : Lexer} {c : Char} (steps : lexer.step c = some next)
    (rest : List Char) : lexer.scan? (c :: rest) = next.scan? rest := by
  rw [scan?, List.foldlM_cons, steps]
  rfl

def Separate (text : List Char) : Prop := ∀ c, text.head? = some c → endsWord c = true

theorem endsWord_cases {c : Char} (ends : endsWord c = true) :
    c = ' ' ∨ c = '\t' ∨ c = '\r' ∨ c = '\n' ∨ c = '"' ∨ c = '[' ∨ c = ']' ∨ c = '{' ∨ c = '}' ∨
      c = ',' ∨ c = ':' := by
  by_contra other
  simp only [not_or] at other
  simp [endsWord, Char.isWhitespace, punctuation?, other] at ends

theorem endsWord_of_isPart {c : Char} (part : Numeral.isPart c = true) : endsWord c = false := by
  by_contra ends
  rcases endsWord_cases (Bool.eq_true_of_not_eq_false ends) with
    rfl | rfl | rfl | rfl | rfl | rfl | rfl | rfl | rfl | rfl | rfl <;> cases part

section Word

variable {tokens : List Token}

theorem foldlM_word {word : List Char} (inside : ∀ c ∈ word, endsWord c = false) :
    ∀ letters : List Char, word.foldlM Lexer.step ⟨tokens, .word letters⟩ =
      some ⟨tokens, .word (word.reverse ++ letters)⟩ := by
  induction word with
  | nil => intro letters; rfl
  | cons c word ih =>
    intro letters
    have single : Lexer.step ⟨tokens, .word letters⟩ c = some ⟨tokens, .word (c :: letters)⟩ := by
      rw [Lexer.step, inside c (List.mem_cons_self ..), if_neg (by decide)]
    rw [List.foldlM_cons, single]
    change List.foldlM Lexer.step _ word = _
    rw [ih fun other listed => inside other (List.mem_cons_of_mem _ listed), List.reverse_cons,
      List.append_assoc]
    rfl

theorem scan?_word {word rest : List Char} {value : Json} (known : scalar? word = some value)
    (inside : ∀ c ∈ word, endsWord c = false) (some' : word ≠ []) (separate : Separate rest) :
    Lexer.scan? ⟨tokens, .between⟩ (word ++ rest) =
      Lexer.scan? ⟨.scalar value :: tokens, .between⟩ rest := by
  -- the first character opens the word, the others carry it on, and the rest ends it
  obtain ⟨first, more, rfl⟩ := List.exists_cons_of_ne_nil some'
  have outside := inside first (List.mem_cons_self ..)
  simp only [endsWord, Bool.or_eq_false_iff, decide_eq_false_iff_not,
    Option.isSome_eq_false_iff, Option.isNone_iff_eq_none] at outside
  have opens : [first].foldlM Lexer.step ⟨tokens, .between⟩ = some ⟨tokens, .word [first]⟩ := by
    simp [Lexer.step, Lexer.start, outside]
  have carries : (first :: more).foldlM Lexer.step ⟨tokens, .between⟩ =
      some ⟨tokens, .word (first :: more).reverse⟩ := by
    change ([first] ++ more).foldlM Lexer.step _ = _
    rw [List.foldlM_append, opens]
    change List.foldlM Lexer.step _ more = _
    rw [foldlM_word fun c listed => inside c (List.mem_cons_of_mem _ listed), List.reverse_cons]
  rw [Lexer.scan?_append carries]
  cases rest with
  | nil =>
    change Option.map _ (scalar? (first :: more).reverse.reverse) = _
    rw [List.reverse_reverse, known]
    rfl
  | cons c rest =>
    have ended : Lexer.step ⟨tokens, .word (first :: more).reverse⟩ c =
        Lexer.step ⟨.scalar value :: tokens, .between⟩ c := by
      have ends : endsWord c = true := separate c rfl
      simp only [Lexer.step, ends, if_true, List.reverse_reverse, known, Option.map_some]
    rw [Lexer.scan?, Lexer.scan?, List.foldlM_cons, List.foldlM_cons, ended]

end Word

theorem scalar?_of_read? {word : List Char} {value : Number}
    (reads : Numeral.read? word = some value) : scalar? word = some (.num value) := by
  have other : ∀ text : String, Numeral.read? text.toList = none → word ≠ text.toList := by
    rintro text none rfl
    rw [none] at reads
    cases reads
  rw [scalar?, if_neg (other "true" rfl), if_neg (other "false" rfl), if_neg (other "null" rfl),
    if_neg (other "NaN" rfl), if_neg (other "Infinity" rfl), if_neg (other "-Infinity" rfl), reads]
  rfl

theorem scalar?_chars {value : Number} (short : value.Short) :
    scalar? (value.chars .document) = some (.num value) := by
  cases value with
  | int value => exact scalar?_of_read? (Numeral.read?_intChars short)
  | float value =>
    cases value with
    | nan => rfl
    | infinite negative => cases negative <;> rfl
    | finite negative m => exact scalar?_of_read? (Numeral.read?_finite negative m)

end Token

open Token

/-! ## Texts scanned piece by piece -/

section Scan

variable {escape : Bool} {text front : List Char} {found more : List Token}

/-- Whether a text is scanned as these tokens wherever it stands, if no word goes on behind it. -/
def ScansTo (escape : Bool) (text : List Char) (found : List Token) : Prop :=
  ∀ (before : List Token) (rest : List Char), Separate rest →
    Lexer.scan? ⟨before, .between⟩ (text.flatMap (slashText escape) ++ rest) =
      Lexer.scan? ⟨found.reverse ++ before, .between⟩ rest

theorem ScansTo.nil : ScansTo escape [] [] := fun _ _ _ => rfl

theorem punctuation?_cases {c : Char} {token : Token} (known : punctuation? c = some token) :
    slashText escape c = [c] ∧ endsWord c = true ∧
      ∀ before, Lexer.step ⟨before, .between⟩ c = some ⟨token :: before, .between⟩ := by
  have some' : c = '[' ∨ c = ']' ∨ c = '{' ∨ c = '}' ∨ c = ',' ∨ c = ':' := by
    by_contra other
    simp only [not_or] at other
    simp [punctuation?, other] at known
  rcases some' with rfl | rfl | rfl | rfl | rfl | rfl <;> cases known <;>
    exact ⟨by simp [slashText], rfl, fun _ => rfl⟩

theorem ScansTo.punctuation {c : Char} {token : Token} (known : punctuation? c = some token)
    (later : ScansTo escape text found) : ScansTo escape (c :: text) (token :: found) := by
  obtain ⟨plain, -, steps⟩ := @punctuation?_cases escape _ _ known
  intro before rest separate
  rw [List.flatMap_cons, plain, List.singleton_append, List.cons_append,
    Lexer.scan?_cons (steps before), later _ _ separate, List.reverse_cons, List.append_assoc]
  rfl

theorem ScansTo.append_punctuation {c : Char} {token : Token}
    (first : ScansTo escape front found) (known : punctuation? c = some token)
    (later : ScansTo escape text more) :
    ScansTo escape (front ++ c :: text) (found ++ token :: more) := by
  obtain ⟨plain, ends, -⟩ := @punctuation?_cases escape _ _ known
  intro before rest separate
  have apart : Separate ((c :: text).flatMap (slashText escape) ++ rest) := by
    rw [List.flatMap_cons, plain]
    rintro first ⟨⟩
    exact ends
  rw [List.flatMap_append, List.append_assoc, first _ _ apart,
    later.punctuation known _ _ separate, List.reverse_append, List.append_assoc]

theorem ScansTo.word {value : Json} (known : scalar? text = some value)
    (parts : text.all Numeral.isPart = true) (some' : text ≠ []) :
    ScansTo escape text [.scalar value] := by
  rw [List.all_eq_true] at parts
  intro before rest separate
  have absent : '/' ∉ text := fun listed => by cases parts '/' listed
  rw [flatMap_slashText absent,
    scan?_word known (fun c listed => endsWord_of_isPart (parts c listed)) some' separate]
  rfl

theorem ScansTo.string (ascii : Bool) (value : String) :
    ScansTo escape (Escape.stringText ascii value) [.text value] := by
  intro before rest _
  rw [Lexer.scan?_append (foldlM_stringText ascii escape value)]
  rfl

theorem ScansTo.scan?_eq (scans : ScansTo escape text found) :
    Token.scan? (text.flatMap (slashText escape)) = some found := by
  have all := scans [] [] (by rintro c ⟨⟩)
  rw [List.append_nil, List.append_nil] at all
  rw [Token.scan?]
  refine all.trans ?_
  rw [Lexer.scan?]
  change some (found.reverse.reverse) = _
  rw [List.reverse_reverse]

variable {ascii : Bool}

theorem scansTo_scalar {value : Json} (scalar : value.isContainer = false)
    (short : value.ShortNumbers) : ScansTo escape (chars (Escape.stringText ascii) value) value.tokens := by
  cases value with
  | null => exact @ScansTo.word escape "null".toList _ rfl (by decide) (by decide)
  | bool value =>
    cases value with
    | true => exact @ScansTo.word escape "true".toList _ rfl (by decide) (by decide)
    | false => exact @ScansTo.word escape "false".toList _ rfl (by decide) (by decide)
  | num value =>
    exact ScansTo.word (scalar?_chars short)
      (List.all_eq_true.mpr fun c => Numeral.isPart_of_mem_chars) (Numeral.chars_ne_nil value)
  | str value => exact ScansTo.string ascii value
  | arr elements => cases scalar
  | obj members => cases scalar

theorem scansTo_elements {elements : List Json}
    (scans : ∀ value ∈ elements, ScansTo escape (chars (Escape.stringText ascii) value) value.tokens) :
    ScansTo escape (elementsChars (Escape.stringText ascii) elements ++ [']'])
      (elementsTokens elements ++ [.closeArray]) := by
  induction elements with
  | nil => exact ScansTo.nil.punctuation rfl
  | cons value rest ih =>
    obtain ⟨first, later⟩ := List.forall_mem_cons.mp scans
    cases rest with
    | nil =>
      rw [elementsChars, elementsTokens, List.isEmpty_nil, if_pos rfl, if_pos rfl, List.append_nil,
        List.append_nil]
      exact first.append_punctuation rfl ScansTo.nil
    | cons next rest =>
      rw [elementsChars, elementsTokens, List.isEmpty_cons, if_neg (by decide), if_neg (by decide),
        List.append_assoc, List.append_assoc]
      exact first.append_punctuation rfl (ih later)

theorem scansTo_members {members : List (String × Json)}
    (scans : ∀ member ∈ members, ScansTo escape (chars (Escape.stringText ascii) member.2) member.2.tokens) :
    ScansTo escape (membersChars (Escape.stringText ascii) members ++ ['}'])
      (membersTokens members ++ [.closeObject]) := by
  induction members with
  | nil => exact ScansTo.nil.punctuation rfl
  | cons member rest ih =>
    obtain ⟨key, value⟩ := member
    obtain ⟨first, later⟩ := List.forall_mem_cons.mp scans
    have name := @ScansTo.string escape ascii key
    cases rest with
    | nil =>
      rw [membersChars, membersTokens, List.isEmpty_nil, if_pos rfl, if_pos rfl, List.append_nil,
        List.append_nil, List.append_assoc]
      exact name.append_punctuation rfl (first.append_punctuation rfl ScansTo.nil)
    | cons next rest =>
      rw [membersChars, membersTokens, List.isEmpty_cons, if_neg (by decide), if_neg (by decide)]
      simp only [List.append_assoc, List.cons_append]
      exact name.append_punctuation rfl (first.append_punctuation rfl (ih later))

theorem scansTo_chars {value : Json} (short : value.ShortNumbers) :
    ScansTo escape (chars (Escape.stringText ascii) value) value.tokens := by
  induction value using kindInduction with
  | scalar value scalar => exact scansTo_scalar scalar short
  | arr elements ih =>
    rw [chars, tokens]
    exact (scansTo_elements fun value listed =>
      ih value listed (elementsShort_iff.mp short value listed)).punctuation rfl
  | obj members ih =>
    rw [chars, tokens]
    exact (scansTo_members fun member listed =>
      ih member listed (membersShort_iff.mp short member listed)).punctuation rfl

end Scan

/-! ## Tokens are read as their document -/

namespace Reader

def run? (state : State) (tokens : List Token) : Option State := tokens.foldlM step state

theorem run?_cons {state next : State} {token : Token} (steps : step state token = some next)
    (rest : List Token) : run? state (token :: rest) = run? next rest := by
  rw [run?, List.foldlM_cons, steps]
  rfl

/-- Whether the tokens of a value are read as the value, whatever is open around it. -/
def Reads (value : Json) : Prop :=
  ∀ (stack : List Frame) (rest : List Token),
    run? ⟨stack, .value⟩ (value.tokens ++ rest) = run? ⟨stack, .ended value⟩ rest

theorem setMember_of_notMem {key : String} {value : Json} {members : List (String × Json)}
    (new : key ∉ members.map Prod.fst) :
    setMember key value members = members ++ [(key, value)] := by
  induction members with
  | nil => rfl
  | cons member rest ih =>
    rw [List.map_cons, List.mem_cons, not_or] at new
    rw [setMember, if_neg (Ne.symm new.1), ih new.2, List.cons_append]

theorem run?_firstElement (stack : List Frame) (value : Json) (rest : List Token) :
    run? ⟨.array [] :: stack, .firstElement⟩ (value.tokens ++ rest) =
      run? ⟨.array [] :: stack, .value⟩ (value.tokens ++ rest) := by
  cases value <;> rfl

theorem run?_elements {elements : List Json} (reads : ∀ value ∈ elements, Reads value) :
    ∀ (stack : List Frame) (before : List Json) (rest : List Token), elements ≠ [] →
      run? ⟨.array before :: stack, .value⟩ (elementsTokens elements ++ .closeArray :: rest) =
        run? ⟨stack, .ended (.arr (before.reverse ++ elements))⟩ rest := by
  induction elements with
  | nil => exact fun _ _ _ some' => absurd rfl some'
  | cons value more ih =>
    intro stack before rest _
    obtain ⟨first, later⟩ := List.forall_mem_cons.mp reads
    cases more with
    | nil =>
      rw [elementsTokens, List.isEmpty_nil, if_pos rfl, List.append_nil, first]
      refine (run?_cons rfl rest).trans ?_
      rw [List.reverse_cons]
    | cons next more =>
      rw [elementsTokens, List.isEmpty_cons, if_neg (by decide), List.append_assoc, first,
        List.cons_append]
      refine (run?_cons rfl _).trans ?_
      rw [ih later stack (value :: before) rest (by simp), List.reverse_cons, List.append_assoc]
      rfl

theorem run?_members {members : List (String × Json)}
    (reads : ∀ member ∈ members, Reads member.2) :
    ∀ (stack : List Frame) (before : List (String × Json)) (rest : List Token), members ≠ [] →
      ((before ++ members).map Prod.fst).Nodup →
      run? ⟨stack, .key before⟩ (membersTokens members ++ .closeObject :: rest) =
        run? ⟨stack, .ended (.obj (before ++ members))⟩ rest := by
  induction members with
  | nil => exact fun _ _ _ some' => absurd rfl some'
  | cons member more ih =>
    intro stack before rest _ nodup
    obtain ⟨key, value⟩ := member
    obtain ⟨first, later⟩ := List.forall_mem_cons.mp reads
    -- a new key goes to the end, so members come in the order they were written in
    have new : key ∉ before.map Prod.fst := by
      rw [List.map_append, List.nodup_append] at nodup
      exact fun old => nodup.2.2 key old key (List.mem_cons_self ..) rfl
    have put := @setMember_of_notMem key value before new
    have opens : ∀ behind : List Token,
        run? ⟨stack, .key before⟩ (.text key :: .colon :: (value.tokens ++ behind)) =
          run? ⟨.object before key :: stack, .ended value⟩ behind := first _
    cases more with
    | nil =>
      rw [membersTokens, List.isEmpty_nil, if_pos rfl, List.append_nil]
      refine (opens _).trans ((run?_cons rfl rest).trans ?_)
      rw [put]
    | cons next more =>
      rw [membersTokens, List.isEmpty_cons, if_neg (by decide), List.cons_append, List.cons_append,
        List.append_assoc, opens, List.cons_append]
      refine (run?_cons rfl _).trans ?_
      rw [put, ih later stack _ rest (by simp) (by simpa using nodup), List.append_assoc]
      rfl

theorem reads_of_wellFormed {value : Json} (wf : value.WellFormed) : Reads value := by
  induction value using kindInduction with
  | scalar value scalar =>
    intro stack rest
    cases value with
    | arr elements => cases scalar
    | obj members => cases scalar
    | _ => rfl
  | arr elements ih =>
    have each := fun value listed =>
      ih value listed ((elementsWellFormed_iff elements).mp wf value listed)
    intro stack rest
    cases elements with
    | nil => rfl
    | cons value more =>
      have all := run?_elements each stack [] rest (by simp)
      rw [tokens, List.cons_append, List.append_assoc]
      refine (run?_cons rfl _).trans (Eq.trans ?_ all)
      rw [elementsTokens, List.append_assoc, List.append_assoc]
      exact run?_firstElement stack value _
  | obj members ih =>
    have each := fun member listed =>
      ih member listed ((membersWellFormed_iff members).mp wf.2 member listed)
    intro stack rest
    cases members with
    | nil => rfl
    | cons member more =>
      have all := run?_members each stack [] rest (by simp) wf.1
      rw [tokens, List.cons_append, List.append_assoc]
      exact all

end Reader

theorem ofTokens?_tokens {value : Json} (wf : value.WellFormed) :
    ofTokens? value.tokens = some value := by
  have all := Reader.reads_of_wellFormed wf [] []
  rw [List.append_nil] at all
  rw [ofTokens?]
  refine (congrArg (Option.bind · Reader.finish) all).trans ?_
  rfl

/-- The text of a readable document is read as that document. -/
theorem read?_chars {document : Json} (readable : document.Readable) (ascii escape : Bool) :
    read? (String.ofList ((chars (Escape.stringText ascii) document).flatMap (slashText escape))) = some document := by
  have scans : ScansTo escape (chars (Escape.stringText ascii) document) document.tokens :=
    scansTo_chars readable.short
  rw [read?, String.toList_ofList, scans.scan?_eq]
  exact ofTokens?_tokens readable.wellFormed

end Json

end PathQuery
