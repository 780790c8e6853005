/-
Descriptions tell what they describe.

A description is made of fixed words with fields between them: positions, names, lines, operators,
and in a block other descriptions. The fields are read off from the left, and each can be seen to
end (`Text.Delimited`): a number or an operator is a word of letters and digits, and what stands
behind it never starts with one. Behind an element of a list there is a comma or the bracket, and
the element has shown by then where it ends. The induction over blocks inside blocks carries nothing
more than that (`Stmt.delimited_describe`).

The number of a literal is no such word, as it may have a sign and a point. It is the only field of
its description but for the line, so it is what is left when the words at both ends are taken away.
Its text tells all numbers apart but the NaNs, which are written alike
(`Number.text_described_eq_iff`).
-/
import ScriptCore.Proofs.ReadBack
import ScriptCore.Program.Stmt

set_option autoImplicit false

namespace ScriptCore

/-! ## Where a text ends -/

namespace Text

/-- What may stand behind a word: nothing, or a text that does not go on with a letter or a
digit. -/
def Ends (rest : String) : Prop := ∀ c ∈ rest.toList.head?, c.isAlphanum = false

/-- In front of whatever may stand behind a word, the text of `a` is told from the text of anything
else, and it is seen where it ends. -/
def Delimited {α : Type} (write : α → String) (a : α) : Prop :=
  ∀ b rest rest', Ends rest → Ends rest' → write a ++ rest = write b ++ rest' →
    a = b ∧ rest = rest'

/-- Words whose first character is neither a letter nor a digit. -/
def divides (words : String) : Bool := words.toList.head?.any fun c => !c.isAlphanum

theorem ends_empty : Ends "" := by
  intro c hc
  cases hc

theorem ends_append {words : String} (h : divides words = true) (rest : String) :
    Ends (words ++ rest) := by
  intro c hc
  rw [divides, Option.any_eq_true] at h
  obtain ⟨first, hfirst, hother⟩ := h
  rw [String.toList_append, List.head?_append, hfirst, Option.some_or, Option.mem_some_iff] at hc
  rw [← hc]
  simpa using hother

/-- Texts that start differently do not become the same by what follows. -/
theorem first_eq {s t rest rest' : String} {c d : Char} (hs : s.toList.head? = some c)
    (ht : t.toList.head? = some d) (h : s ++ rest = t ++ rest') : c = d := by
  have hfirst := congrArg (·.toList.head?) h
  simp only [String.toList_append, List.head?_append, hs, ht, Option.some_or] at hfirst
  exact Option.some.inj hfirst

/-- Letters and digits up to something else are read in one way. -/
theorem word_eq {word word' rest rest' : List Char} (hword : ∀ c ∈ word, c.isAlphanum = true)
    (hword' : ∀ c ∈ word', c.isAlphanum = true) (hrest : ∀ c ∈ rest.head?, c.isAlphanum = false)
    (hrest' : ∀ c ∈ rest'.head?, c.isAlphanum = false) (h : word ++ rest = word' ++ rest') :
    word = word' ∧ rest = rest' := by
  have hstop : ∀ {cs : List Char}, (∀ c ∈ cs.head?, c.isAlphanum = false) →
      cs.takeWhile Char.isAlphanum = [] := by
    intro cs hcs
    rcases cs with _ | ⟨c, cs⟩
    · rfl
    · exact List.takeWhile_cons_of_neg (by simp [hcs c rfl])
  have hsame : word = word' := by
    have htake := congrArg (List.takeWhile Char.isAlphanum) h
    rwa [List.takeWhile_append_of_pos hword, List.takeWhile_append_of_pos hword', hstop hrest,
      hstop hrest', List.append_nil, List.append_nil] at htake
  subst hsame
  exact ⟨rfl, List.append_cancel_left h⟩

section Fields

variable {α β : Type} {write : α → String} {a b : α}

theorem Delimited.eq_iff (h : Delimited write a) : write a = write b ↔ a = b := by
  constructor
  · intro hwrite
    exact (h b "" "" ends_empty ends_empty (congrArg (· ++ "") hwrite)).1
  · rintro rfl
    rfl

/-- A field and the words behind it. -/
theorem Delimited.behind (h : Delimited write a) {words : String} (hwords : divides words = true)
    {rest rest' : String} (heq : write a ++ (words ++ rest) = write b ++ (words ++ rest')) :
    a = b ∧ rest = rest' := by
  obtain ⟨rfl, hrest⟩ := h b _ _ (ends_append hwords rest) (ends_append hwords rest') heq
  exact ⟨rfl, (String.append_right_inj words).1 hrest⟩

/-- Words of letters and digits are fields, if no two are the same. -/
theorem delimited_word (hword : ∀ a, ∀ c ∈ (write a).toList, c.isAlphanum = true)
    (hinj : Function.Injective write) (a : α) : Delimited write a := by
  intro b rest rest' hrest hrest' h
  have hchars := congrArg String.toList h
  rw [String.toList_append, String.toList_append] at hchars
  obtain ⟨hwrite, hsame⟩ := word_eq (hword a) (hword b) hrest hrest' hchars
  exact ⟨hinj (String.toList_inj.1 hwrite), String.toList_inj.1 hsame⟩

/-- No two texts are the same, if each is found among all by itself. -/
theorem injective_of_find? {all : List α}
    (h : ∀ a, all.find? (fun b => write b == write a) = some a) : Function.Injective write := by
  intro a b hwrite
  have hfind := h a
  rw [hwrite, h b] at hfind
  exact (Option.some.inj hfind).symm

/-- A field between fixed words is a field. -/
theorem Delimited.enclosed {f : β → α} {x : β} (h : Delimited write (f x))
    (hf : Function.Injective f) (before : String) {after : String} (hafter : divides after = true) :
    Delimited (fun y => before ++ write (f y) ++ after) x := by
  intro y rest rest' _ _ heq
  simp only [String.append_assoc, String.append_right_inj] at heq
  obtain ⟨hxy, hrest⟩ := h.behind hafter heq
  exact ⟨hf hxy, hrest⟩

end Fields

/-! ### Numbers as words -/

theorem isAlphanum_of_mem_toString (n : Nat) : ∀ c ∈ (toString n).toList, c.isAlphanum = true := by
  intro c hc
  rw [Nat.toString_eq_repr, Nat.toList_repr] at hc
  have hdigit : c.isDigit = true := Nat.isDigit_of_mem_toDigits (by omega) (by omega) hc
  rw [Char.isAlphanum, hdigit, Bool.or_true]

theorem toString_injective : Function.Injective (toString : Nat → String) := by
  intro n m h
  have hdigits := congrArg String.toList h
  rw [Nat.toString_eq_repr, Nat.toString_eq_repr, Nat.toList_repr, Nat.toList_repr] at hdigits
  rw [← Nat.ofDigitChars_ten_toDigits (n := n), hdigits, Nat.ofDigitChars_ten_toDigits]

theorem delimited_toString (n : Nat) : Delimited toString n :=
  delimited_word isAlphanum_of_mem_toString toString_injective n

/-- The last field of a description, and its line. -/
theorem Delimited.lined {α : Type} {write : α → String} {a b : α} (h : Delimited write a)
    {words : String} (hwords : divides words = true) {line line' : Nat} {rest rest' : String}
    (hrest : Ends rest) (hrest' : Ends rest')
    (heq : write a ++ (words ++ (toString line ++ rest)) =
      write b ++ (words ++ (toString line' ++ rest'))) :
    a = b ∧ line = line' ∧ rest = rest' := by
  obtain ⟨hab, hline⟩ := h.behind hwords heq
  exact ⟨hab, delimited_toString line _ _ _ hrest hrest' hline⟩

/-! ### Lists -/

/-- Texts in brackets, with a comma between any two. -/
def listed (texts : List String) : String := "[" ++ ", ".intercalate texts ++ "]"

/-- What stands behind an element of a list: the others, each behind a comma, and the bracket. -/
def closing : List String → String
  | [] => "]"
  | text :: texts => ", " ++ (text ++ closing texts)

theorem listed_cons (text : String) (texts : List String) :
    listed (text :: texts) = "[" ++ (text ++ closing texts) := by
  have hclosing : ", ".intercalate (text :: texts) ++ "]" = text ++ closing texts := by
    induction texts generalizing text with
    | nil => rw [String.intercalate_singleton, closing]
    | cons next texts ih =>
      rw [String.intercalate_cons_cons, String.append_assoc, String.append_assoc, ih, closing]
  rw [listed, String.append_assoc, hclosing]

theorem ends_closing (texts : List String) (rest : String) : Ends (closing texts ++ rest) := by
  rcases texts with _ | ⟨text, texts⟩
  · exact ends_append (by decide) rest
  · rw [closing, String.append_assoc]
    exact ends_append (by decide) _

section Lists

variable {α : Type} {write : α → String} {as bs : List α} {rest rest' : String}

/-- Behind an element it is seen whether there is another one. The induction is on the elements that
are left. -/
theorem closing_eq (h : ∀ a ∈ as, Delimited write a)
    (heq : closing (as.map write) ++ rest = closing (bs.map write) ++ rest') :
    as = bs ∧ rest = rest' := by
  induction as generalizing bs with
  | nil =>
    rcases bs with _ | ⟨b, bs⟩
    · exact ⟨rfl, (String.append_right_inj "]").1 heq⟩
    · simp only [List.map_nil, List.map_cons, closing, String.append_assoc] at heq
      exact absurd (first_eq (c := ']') (d := ',') rfl rfl heq) (by decide)
  | cons a as ih =>
    rcases bs with _ | ⟨b, bs⟩
    · simp only [List.map_nil, List.map_cons, closing, String.append_assoc] at heq
      exact absurd (first_eq (c := ',') (d := ']') rfl rfl heq) (by decide)
    · simp only [List.map_cons, closing, String.append_assoc, String.append_right_inj] at heq
      obtain ⟨rfl, hothers⟩ :=
        h a List.mem_cons_self b _ _ (ends_closing _ _) (ends_closing _ _) heq
      obtain ⟨rfl, hrest⟩ := ih (fun a ha => h a (List.mem_cons_of_mem _ ha)) hothers
      exact ⟨rfl, hrest⟩

/-- **A list of fields is a field**, if no element could be taken for the end of the list. -/
theorem delimited_listed (hfirst : ∀ a, ∃ c, (write a).toList.head? = some c ∧ c ≠ ']')
    (h : ∀ a ∈ as, Delimited write a) : Delimited (fun as => listed (as.map write)) as := by
  -- An empty list goes on with its end, and another one with an element.
  have hempty : ∀ {a rest rest'}, "]" ++ rest ≠ write a ++ rest' := by
    intro a rest rest' heq
    obtain ⟨c, hc, hne⟩ := hfirst a
    exact hne (first_eq (c := ']') rfl hc heq).symm
  have hnil : listed [] = "[" ++ "]" := by
    rw [listed, String.intercalate_nil, String.append_empty]
  intro bs rest rest' _ _ heq
  rcases as with _ | ⟨a, as⟩ <;> rcases bs with _ | ⟨b, bs⟩
  · exact ⟨rfl, (String.append_right_inj _).1 heq⟩
  · simp only [List.map_nil, List.map_cons, hnil, listed_cons, String.append_assoc,
      String.append_right_inj] at heq
    exact absurd heq hempty
  · simp only [List.map_nil, List.map_cons, hnil, listed_cons, String.append_assoc,
      String.append_right_inj] at heq
    exact absurd heq.symm hempty
  · -- With a comma in front, the elements are what could stand behind another one.
    simp only [List.map_cons, listed_cons, String.append_assoc, String.append_right_inj] at heq
    refine closing_eq h ?_
    simp only [List.map_cons, closing, String.append_assoc, heq]

end Lists

end Text

open Text

/-! ## Positions and names -/

theorem NodeId.delimited (id : NodeId) : Delimited NodeId.describe id := by
  have hindex : Function.Injective NodeId.index := by
    rintro ⟨_⟩ ⟨_⟩ rfl
    rfl
  exact (delimited_toString id.index).enclosed hindex "ExprId(" (by decide)

theorem Name.delimited (name : Name) : Delimited Name.describe name := by
  have hindex : Function.Injective Name.index := by
    rintro ⟨_⟩ ⟨_⟩ rfl
    rfl
  exact (delimited_toString name.index).enclosed hindex "Name(" (by decide)

/-! ## Statements -/

namespace Stmt

/-- The value of a declaration, if there is one. -/
def describeInit : Option NodeId → String
  | none => "None"
  | some value => "Some(" ++ value.describe ++ ")"

/-- The text by which diagnostics show a list of statements. -/
def describeList (stmts : List Stmt) : String := listed (stmts.map describe)

theorem describe_declare (name : Name) (init : Option NodeId) (line : Nat) :
    (declare name init line).describe = "Var \x7b name: " ++ name.describe ++ ", init: " ++
      describeInit init ++ " \x7d @ line " ++ toString line := by
  apply String.toList_inj.1
  unfold describe
  cases init <;> simp [describeInit]

/-- A block is described by the list of its statements. -/
theorem describe_block (body : List Stmt) (line : Nat) :
    (block body line).describe =
      "Block(" ++ describeList body ++ ") @ line " ++ toString line := by
  apply String.toList_inj.1
  unfold describe
  simp [describeList, listed, describeAll_eq_map]

/-- The letter that the description of a statement starts with. -/
def initial : Stmt → Char
  | expression _ _ => 'E'
  | print _ _ => 'P'
  | declare _ _ _ => 'V'
  | block _ _ => 'B'

theorem head?_describe (s : Stmt) : s.describe.toList.head? = some s.initial := by
  cases s with
  | declare name init line => simp [describe_declare, initial]
  | _ =>
    unfold describe
    simp [initial]

theorem delimited_init (init : Option NodeId) : Delimited describeInit init := by
  have hnone : (describeInit none).toList.head? = some 'N' := rfl
  have hsome : ∀ value, (describeInit (some value)).toList.head? = some 'S' := by
    intro value
    simp [describeInit]
  intro init' rest rest' hrest hrest' h
  rcases init with _ | value <;> rcases init' with _ | value'
  · exact ⟨rfl, (String.append_right_inj _).1 h⟩
  · exact absurd (first_eq hnone (hsome value') h) (by decide)
  · exact absurd (first_eq (hsome value) hnone h) (by decide)
  · simp only [describeInit, String.append_assoc, String.append_right_inj] at h
    obtain ⟨rfl, hsame⟩ := value.delimited.behind (by decide) h
    exact ⟨rfl, hsame⟩

theorem delimited_describeList {body : List Stmt} (h : ∀ s ∈ body, Delimited describe s) :
    Delimited describeList body := by
  refine delimited_listed ?_ h
  intro s
  refine ⟨s.initial, s.head?_describe, ?_⟩
  cases s <;> simp [initial]

mutual

/-- **A statement shows where it ends.** Only statements of the same form start with the same
letter, and then the fields are read one after the other. -/
theorem delimited_describe : (s : Stmt) → Delimited describe s
  | expression value line => by
    intro t rest rest' hrest hrest' h
    have hinitial := first_eq (head?_describe _) t.head?_describe h
    cases t with
    | expression value' line' =>
      unfold describe at h
      simp only [String.append_assoc, String.append_right_inj] at h
      obtain ⟨rfl, rfl, hsame⟩ := value.delimited.lined (by decide) hrest hrest' h
      exact ⟨rfl, hsame⟩
    | _ => simp [initial] at hinitial
  | print value line => by
    intro t rest rest' hrest hrest' h
    have hinitial := first_eq (head?_describe _) t.head?_describe h
    cases t with
    | print value' line' =>
      unfold describe at h
      simp only [String.append_assoc, String.append_right_inj] at h
      obtain ⟨rfl, rfl, hsame⟩ := value.delimited.lined (by decide) hrest hrest' h
      exact ⟨rfl, hsame⟩
    | _ => simp [initial] at hinitial
  | declare name init line => by
    intro t rest rest' hrest hrest' h
    have hinitial := first_eq (head?_describe _) t.head?_describe h
    cases t with
    | declare name' init' line' =>
      simp only [describe_declare, String.append_assoc, String.append_right_inj] at h
      obtain ⟨rfl, hinit⟩ := name.delimited.behind (by decide) h
      obtain ⟨rfl, rfl, hsame⟩ := (delimited_init init).lined (by decide) hrest hrest' hinit
      exact ⟨rfl, hsame⟩
    | _ => simp [initial] at hinitial
  | block body line => by
    intro t rest rest' hrest hrest' h
    have hinitial := first_eq (head?_describe _) t.head?_describe h
    cases t with
    | block body' line' =>
      -- The statements inside show where they end, so their list does.
      simp only [describe_block, String.append_assoc, String.append_right_inj] at h
      obtain ⟨rfl, rfl, hsame⟩ :=
        (delimited_describeList (delimited_describe_of_mem body)).lined (by decide) hrest hrest' h
      exact ⟨rfl, hsame⟩
    | _ => simp [initial] at hinitial

theorem delimited_describe_of_mem : (stmts : List Stmt) → ∀ s ∈ stmts, Delimited describe s
  | [] => by
    intro s hs
    cases hs
  | s :: stmts => by
    intro t ht
    rcases List.mem_cons.1 ht with heq | hmem
    · rw [heq]
      exact delimited_describe s
    · exact delimited_describe_of_mem stmts t hmem

end

/-- **Descriptions tell statements apart.** Two statements have the same description exactly if they
are equal, with all positions, names and lines and those of the statements inside; and so for lists
of statements. -/
theorem descriptions_tell_statements (s t : Stmt) (ss ts : List Stmt) :
    (s.describe = t.describe ↔ (s == t) = true) ∧
      (describeList ss = describeList ts ↔ (ss == ts) = true) := by
  rw [beq_iff_eq, beq_iff_eq]
  constructor
  · exact (delimited_describe s).eq_iff
  · exact (delimited_describeList (delimited_describe_of_mem ss)).eq_iff

example : describeList [block [block [] 1, print ⟨0⟩ 12] 3, declare ⟨4⟩ none 5] =
    "[Block([Block([]) @ line 1, Print(ExprId(0)) @ line 12]) @ line 3, " ++
      "Var \x7b name: Name(4), init: None \x7d @ line 5]" := by
  decide +kernel

end Stmt

/-! ## Numbers

A finite number is written with digits and the others are not, so these are three kinds of text. -/

namespace Number

section Kinds

variable {x : Number}

theorem text_of_isNaN (hnan : x.isNaN = true) (spelling : NumberSpelling) :
    x.text spelling = spelling.nan := if_pos hnan

theorem magnitude_of_not_isFinite (hfinite : x.isFinite = false) (hnan : x.isNaN = false) :
    x.magnitude = infiniteMagnitude := by
  have hnotLess := of_decide_eq_false hfinite
  have hnotMore := of_decide_eq_false hnan
  omega

theorem text_of_not_isFinite (hfinite : x.isFinite = false) (hnan : x.isNaN = false) :
    x.text .described = if x.isNegative then "-inf" else "inf" := by
  have hinfinite : x.isInfinite = true := beq_iff_eq.2 (magnitude_of_not_isFinite hfinite hnan)
  rw [text, hnan, if_neg Bool.false_ne_true, if_pos hinfinite, signChars]
  cases x.isNegative <;> rfl

end Kinds

/-- A digit is written for a finite number only. -/
theorem any_isDigit_text (x : Number) :
    (x.text .described).toList.any Char.isDigit = x.isFinite := by
  rcases hfinite : x.isFinite with _ | _
  · rcases hnan : x.isNaN with _ | _
    · rw [text_of_not_isFinite hfinite hnan]
      cases x.isNegative <;> rfl
    · rw [text_of_isNaN hnan]
      rfl
  · have hcanonical := canonical_numeral hfinite
    obtain ⟨c, hc⟩ := List.exists_mem_of_ne_nil _ hcanonical.whole_ne_nil
    rw [toList_text hfinite, List.any_eq_true]
    refine ⟨c, ?_, hcanonical.whole_digits c hc⟩
    rw [Numeral.chars]
    exact List.mem_append_left _ (List.mem_append_right _ hc)

/-- Two infinities are written alike only if they are the same, and none is written like a NaN. -/
theorem eq_or_isNaN_of_text {x y : Number} (hx : x.isFinite = false) (hy : y.isFinite = false)
    (h : x.text .described = y.text .described) : x = y ∨ x.isNaN = true ∧ y.isNaN = true := by
  have hother : ∀ negative : Bool, "NaN" ≠ if negative then "-inf" else "inf" := by decide
  rcases hxnan : x.isNaN with _ | _ <;> rcases hynan : y.isNaN with _ | _
  · rw [text_of_not_isFinite hx hxnan, text_of_not_isFinite hy hynan] at h
    have hsigns : ∀ negative negative' : Bool, (if negative then "-inf" else "inf") =
        (if negative' then "-inf" else "inf") → negative = negative' := by decide
    refine .inl (eq_of_magnitude (hsigns _ _ h) ?_)
    rw [magnitude_of_not_isFinite hx hxnan, magnitude_of_not_isFinite hy hynan]
  · rw [text_of_not_isFinite hx hxnan, text_of_isNaN hynan] at h
    exact absurd h.symm (hother _)
  · rw [text_of_isNaN hxnan, text_of_not_isFinite hy hynan] at h
    exact absurd h (hother _)
  · exact .inr ⟨rfl, rfl⟩

/-- **The text of a literal tells its number**, down to the sign of a zero, but not the pattern of a
NaN. -/
theorem text_described_eq_iff (x y : Number) :
    x.text .described = y.text .described ↔ x = y ∨ x.isNaN = true ∧ y.isNaN = true := by
  constructor
  · intro h
    -- Both are finite or none is, which the text shows.
    have hfinite : x.isFinite = y.isFinite := by
      rw [← any_isDigit_text x, h, any_isDigit_text y]
    rcases hx : x.isFinite with _ | _
    · exact eq_or_isNaN_of_text hx (hfinite ▸ hx) h
    · exact .inl (text_injective (hfinite ▸ hx) hx h)
  · rintro (rfl | ⟨hx, hy⟩)
    · rfl
    · rw [text_of_isNaN hx, text_of_isNaN hy]

end Number

/-! ## Operators -/

namespace UnaryOp

/-- No two unary operators share a label. -/
theorem find?_label (op : UnaryOp) : all.find? (·.label == op.label) = some op := by
  cases op <;> decide

theorem delimited_label (op : UnaryOp) : Delimited label op := by
  refine delimited_word ?_ (injective_of_find? find?_label) op
  intro op
  apply List.all_eq_true.1
  cases op <;> rfl

end UnaryOp

namespace BinaryOp

/-- No two binary operators share a label. -/
theorem find?_label (op : BinaryOp) : all.find? (·.label == op.label) = some op := by
  cases op <;> decide

theorem delimited_label (op : BinaryOp) : Delimited label op := by
  refine delimited_word ?_ (injective_of_find? find?_label) op
  intro op
  apply List.all_eq_true.1
  cases op <;> rfl

end BinaryOp

/-! ## Expressions -/

namespace Literal

/-- A number whose pattern is a NaN. -/
def IsNaN (v : Literal) : Prop := ∃ x : Number, v = number x ∧ x.isNaN = true

/-- The two letters that the description of a literal starts with. -/
def initials : Literal → List Char
  | number _ => ['N', 'u']
  | string _ => ['S', 't']
  | boolean _ => ['B', 'o']
  | nil => ['N', 'i']

theorem take_describe (v : Literal) : v.describe.toList.take 2 = v.initials := by
  cases v with
  | boolean b => cases b <;> rfl
  | _ => simp [describe, initials]

theorem describe_eq_iff (v w : Literal) : v.describe = w.describe ↔ v = w ∨ v.IsNaN ∧ w.IsNaN := by
  constructor
  · intro h
    have hinitials := v.take_describe
    rw [h, w.take_describe] at hinitials
    cases v with
    | number x =>
      cases w with
      | number y =>
        simp only [describe, String.append_right_inj, String.append_left_inj] at h
        rcases (Number.text_described_eq_iff x y).1 h with rfl | ⟨hx, hy⟩
        · exact .inl rfl
        · exact .inr ⟨⟨x, rfl, hx⟩, ⟨y, rfl, hy⟩⟩
      | _ => simp [initials] at hinitials
    | string name =>
      cases w with
      | string name' =>
        simp only [describe, String.append_right_inj, String.append_left_inj] at h
        rw [name.delimited.eq_iff.1 h]
        exact .inl rfl
      | _ => simp [initials] at hinitials
    | boolean b =>
      cases w with
      | boolean b' => cases b <;> cases b' <;> simp [describe] at h ⊢
      | _ => simp [initials] at hinitials
    | nil =>
      cases w with
      | nil => exact .inl rfl
      | _ => simp [initials] at hinitials
  · rintro (rfl | ⟨⟨x, rfl, hx⟩, ⟨y, rfl, hy⟩⟩)
    · rfl
    · rw [describe, describe, (Number.text_described_eq_iff x y).2 (.inr ⟨hx, hy⟩)]

end Literal

namespace Form

/-- A literal whose pattern is a NaN. -/
def IsNaN (form : Form) : Prop := ∃ x : Number, form = literal (.number x) ∧ x.isNaN = true

/-- The letter that the description of a form starts with. -/
def initial : Form → Char
  | literal _ => 'L'
  | grouping _ => 'G'
  | unary _ _ => 'U'
  | binary _ _ _ => 'B'
  | read _ => 'V'
  | assign _ _ => 'A'

theorem head?_describe (form : Form) : form.describe.toList.head? = some form.initial := by
  unfold describe
  cases form <;> simp [initial]

theorem describe_eq_iff (f g : Form) : f.describe = g.describe ↔ f = g ∨ f.IsNaN ∧ g.IsNaN := by
  constructor
  · intro h
    have hinitial := f.head?_describe
    rw [h, g.head?_describe, Option.some.injEq] at hinitial
    unfold describe at h
    cases f with
    | literal v =>
      cases g with
      | literal w =>
        simp only [String.append_right_inj, String.append_left_inj] at h
        rcases (Literal.describe_eq_iff v w).1 h with rfl | ⟨⟨x, rfl, hx⟩, ⟨y, rfl, hy⟩⟩
        · exact .inl rfl
        · exact .inr ⟨⟨x, rfl, hx⟩, ⟨y, rfl, hy⟩⟩
      | _ => simp [initial] at hinitial
    | grouping inner =>
      cases g with
      | grouping inner' =>
        simp only [String.append_right_inj, String.append_left_inj] at h
        rw [inner.delimited.eq_iff.1 h]
        exact .inl rfl
      | _ => simp [initial] at hinitial
    | unary op operand =>
      cases g with
      | unary op' operand' =>
        -- The words at the end go first. An operator is read up to the comma behind it: without
        -- one, some labels go on to others.
        simp only [String.append_left_inj] at h
        simp only [String.append_assoc, String.append_right_inj] at h
        obtain ⟨rfl, hoperand⟩ := op.delimited_label.behind (by decide) h
        rw [operand.delimited.eq_iff.1 hoperand]
        exact .inl rfl
      | _ => simp [initial] at hinitial
    | binary op left right =>
      cases g with
      | binary op' left' right' =>
        simp only [String.append_left_inj] at h
        simp only [String.append_assoc, String.append_right_inj] at h
        obtain ⟨rfl, hleft⟩ := op.delimited_label.behind (by decide) h
        obtain ⟨rfl, hright⟩ := left.delimited.behind (by decide) hleft
        rw [right.delimited.eq_iff.1 hright]
        exact .inl rfl
      | _ => simp [initial] at hinitial
    | read name =>
      cases g with
      | read name' =>
        simp only [String.append_right_inj, String.append_left_inj] at h
        rw [name.delimited.eq_iff.1 h]
        exact .inl rfl
      | _ => simp [initial] at hinitial
    | assign name value =>
      cases g with
      | assign name' value' =>
        simp only [String.append_left_inj] at h
        simp only [String.append_assoc, String.append_right_inj] at h
        obtain ⟨rfl, hvalue⟩ := name.delimited.behind (by decide) h
        rw [value.delimited.eq_iff.1 hvalue]
        exact .inl rfl
      | _ => simp [initial] at hinitial
  · rintro (rfl | ⟨⟨x, rfl, hx⟩, ⟨y, rfl, hy⟩⟩)
    · rfl
    · have hliteral := (Literal.describe_eq_iff (.number x) (.number y)).2
        (.inr ⟨⟨x, rfl, hx⟩, ⟨y, rfl, hy⟩⟩)
      unfold describe
      simp only [hliteral]

end Form

namespace Node

/-- The line is the last word of a description, so it is read off from the right. -/
theorem lined_eq {s t : String} {line line' : Nat}
    (h : s ++ " @ line " ++ toString line = t ++ " @ line " ++ toString line') :
    s = t ∧ line = line' := by
  have hword : ∀ n : Nat, ∀ c ∈ (toString n).toList.reverse, c.isAlphanum = true := by
    intro n c hc
    exact isAlphanum_of_mem_toString n c (List.mem_reverse.1 hc)
  have hchars := congrArg (·.toList.reverse) h
  simp only [String.toList_append, List.reverse_append] at hchars
  -- From the right, the word ends at the blank behind `line`.
  obtain ⟨hline, -⟩ := word_eq (hword line) (hword line') (by simp) (by simp) hchars
  obtain rfl := toString_injective (String.toList_inj.1 (List.reverse_injective hline))
  simp only [String.append_left_inj] at h
  exact ⟨h, rfl⟩

/-- **Descriptions tell expressions apart, but for NaNs.** Two expressions have the same description
exactly if they are equal, with numbers compared by pattern, or if both are NaNs on the same
line. -/
theorem descriptions_tell_expressions (e f : Node) :
    e.describe = f.describe ↔
      (e == f) = true ∨ ∃ x y : Number, ∃ line : Nat, e = ⟨.literal (.number x), line⟩ ∧
        f = ⟨.literal (.number y), line⟩ ∧ x.isNaN = true ∧ y.isNaN = true := by
  obtain ⟨form, line⟩ := e
  obtain ⟨form', line'⟩ := f
  rw [beq_iff_eq]
  constructor
  · intro h
    obtain ⟨hform, rfl⟩ := lined_eq h
    rcases (Form.describe_eq_iff form form').1 hform with rfl | ⟨⟨x, rfl, hx⟩, ⟨y, rfl, hy⟩⟩
    · exact .inl rfl
    · exact .inr ⟨x, y, line, rfl, rfl, hx, hy⟩
  · rintro (hsame | ⟨x, y, line, hx, hy, hxnan, hynan⟩)
    · rw [hsame]
    · have hform := (Form.describe_eq_iff (.literal (.number x)) (.literal (.number y))).2
        (.inr ⟨⟨x, rfl, hxnan⟩, ⟨y, rfl, hynan⟩⟩)
      rw [hx, hy, describe, describe, hform]

example : [0x8000000000000000, 0xfff0000000000000, 0x7ff8000000000001, 0xfff8000000000000].map
      (fun bits => (Node.mk (.literal (.number ⟨bits⟩)) 7).describe) =
    ["Literal(Number(-0)) @ line 7", "Literal(Number(-inf)) @ line 7",
      "Literal(Number(NaN)) @ line 7", "Literal(Number(NaN)) @ line 7"] := by
  decide +kernel

end Node

end ScriptCore
