/-
The meaning of a program, by rules on trees.

The rules read and change a stack of finite maps, innermost scope first, and nothing else: no
arena, no links between scopes, no depth. Each says how one form of expression or statement ends
when its parts end in a certain way. A part that fails ends the whole with its own failure and the
scopes it left, so whatever was assigned before a failure stays assigned.

Operators have rules of their own, one for each line of the table of the language. Values are equal
by kind and content, numbers are compared by what they denote, and the texts that are printed and
reported are those of the language: no rule asks a function of the evaluator. What is shared with it
is arithmetic alone, the sum, difference, product and quotient of two numbers and the negative of
one. `unaryRule_iff`, `binaryRule_iff` and `Value.prints_iff` say that the functions obey the rules.

The rules are deterministic: a tree has at most one ending from given scopes (`Evaluates.unique`,
`Executes.unique`).
-/
import ScriptCore.Proofs.Unfolding
import ScriptCore.Proofs.PrintedText
import ScriptCore.Proofs.WrittenLines
import ScriptCore.Env.Stack

set_option autoImplicit false

namespace ScriptCore

/-! ## Operators -/

/-- The values are equal, by kind and content. A NaN denotes nothing and is equal to no value. -/
inductive Value.Same : Value → Value → Prop where
  | number {x y : Number} : x.Denoting (· = ·) y → Same (.number x) (.number y)
  | string (s : String) : Same (.string s) (.string s)
  | boolean (b : Bool) : Same (.boolean b) (.boolean b)
  | nil : Same .nil .nil

theorem Value.same_iff (l r : Value) : l.Same r ↔ l.equal r = true := by
  constructor
  · intro h
    cases h with
    | number h => exact (Number.equal_iff _ _).2 h
    | string | boolean => simp [equal]
    | nil => rfl
  · intro h
    rcases l with x | s | b | _ <;> rcases r with y | t | c | _ <;> simp [equal] at h
    · exact .number ((Number.equal_iff x y).1 h)
    · rw [h]
      exact .string t
    · rw [h]
      exact .boolean c
    · exact .nil

/-- The value is a zero, of either sign. -/
def Value.IsZero (v : Value) : Prop :=
  ∃ x, v = .number x ∧ x.denoted? = some ((0 : ℚ) : Extended)

/-- Both values are of the kind. -/
def Value.Both (kind : Kind) (left right : Value) : Prop := left.kind = kind ∧ right.kind = kind

/-- What a unary operator makes of its operand. -/
inductive UnaryRule : UnaryOp → Value → Except Fault Value → Prop where
  | negate (x : Number) : UnaryRule .neg (.number x) (.ok (.number x.negate))
  | negateOther {v : Value} : v.kind ≠ .number → UnaryRule .neg v (.error (.typeMismatch .number))
  | notFalsy {v : Value} : v = .nil ∨ v = .boolean false → UnaryRule .not v (.ok (.boolean true))
  | notTruthy {v : Value} : v ≠ .nil → v ≠ .boolean false →
      UnaryRule .not v (.ok (.boolean false))

/-- What the operators on two numbers, and on nothing else, make of them. -/
inductive NumberRule : BinaryOp → Number → Number → Value → Prop where
  | difference (x y : Number) : NumberRule .sub x y (.number (x.subtract y))
  | product (x y : Number) : NumberRule .mul x y (.number (x.multiply y))
  | quotient (x y : Number) : NumberRule .div x y (.number (x.divide y))
  | holds {op : BinaryOp} {R : Extended → Extended → Prop} {x y : Number} : op ≠ .eq →
      op.relation? = some R → x.Denoting R y → NumberRule op x y (.boolean true)
  | fails {op : BinaryOp} {R : Extended → Extended → Prop} {x y : Number} : op ≠ .eq →
      op.relation? = some R → ¬ x.Denoting R y → NumberRule op x y (.boolean false)

/-- What a binary operator makes of its operands. A zero divisor is looked for before anything
else. -/
inductive BinaryRule : BinaryOp → Value → Value → Except Fault Value → Prop where
  | same {l r : Value} : l.Same r → BinaryRule .eq l r (.ok (.boolean true))
  | different {l r : Value} : ¬ l.Same r → BinaryRule .eq l r (.ok (.boolean false))
  | notSame {l r : Value} : l.Same r → BinaryRule .notEq l r (.ok (.boolean false))
  | notDifferent {l r : Value} : ¬ l.Same r → BinaryRule .notEq l r (.ok (.boolean true))
  | sum (x y : Number) : BinaryRule .add (.number x) (.number y) (.ok (.number (x.add y)))
  | join (s t : String) : BinaryRule .add (.string s) (.string t) (.ok (.string (s ++ t)))
  | addOther {l r : Value} : ¬ l.Both .number r → ¬ l.Both .string r →
      BinaryRule .add l r (.error (.typeMismatch .numbersOrStrings))
  | zeroDivisor (l : Value) {r : Value} : r.IsZero → BinaryRule .div l r (.error .divisionByZero)
  | numbers {op : BinaryOp} {x y : Number} {v : Value} : NumberRule op x y v →
      ¬ (op = .div ∧ (Value.number y).IsZero) → BinaryRule op (.number x) (.number y) (.ok v)
  | numericOther {op : BinaryOp} {l r : Value} : op ∈ [.sub, .mul, .div, .lt, .ltEq, .gt, .gtEq] →
      ¬ (op = .div ∧ r.IsZero) → ¬ l.Both .number r →
      BinaryRule op l r (.error (.typeMismatch .numbers))

theorem unaryRule_iff (op : UnaryOp) (v : Value) (res : Except Fault Value) :
    UnaryRule op v res ↔ op.apply v = res := by
  constructor
  · -- Each rule says what `apply` computes; the values its premises exclude are closed by them.
    rintro (x | hv | (rfl | rfl) | ⟨hnil, hfalse⟩)
    · rfl
    · rcases v with x | s | b | _
      · exact absurd rfl hv
      all_goals rfl
    · rfl
    · rfl
    · rcases v with x | s | b | _
      · rfl
      · rfl
      · rcases b with _ | _
        · exact absurd rfl hfalse
        · rfl
      · exact absurd rfl hnil
  · -- For each operator and kind of value there is a rule to name.
    rintro rfl
    rcases op with _ | _
    · rcases v with x | s | b | _
      · exact .negate x
      all_goals exact .negateOther (by simp [Value.kind])
    · rcases v with x | s | b | _
      · exact .notTruthy (by simp) (by simp)
      · exact .notTruthy (by simp) (by simp)
      · rcases b with _ | _
        · exact .notFalsy (.inr rfl)
        · exact .notTruthy (by simp) (by simp)
      · exact .notFalsy (.inl rfl)

namespace BinaryOp

theorem isZeroNumber_iff (v : Value) : isZeroNumber v = true ↔ v.IsZero := by
  rcases v with x | s | b | _ <;> simp [isZeroNumber, Value.IsZero, Number.denoted?_eq_zero_iff]

theorem onNumbers_other (f : Number → Number → Value) {l r : Value} (h : ¬ l.Both .number r) :
    onNumbers f l r = .error (.typeMismatch .numbers) := by
  unfold onNumbers
  split
  · exact absurd ⟨rfl, rfl⟩ h
  · rfl

theorem quotient_eq (l : Value) {r : Value} (hr : ¬ r.IsZero) :
    quotient l r = onNumbers (fun x y => .number (x.divide y)) l r := by
  rw [← isZeroNumber_iff] at hr
  exact if_neg hr

theorem plus_other {l r : Value} (hn : ¬ l.Both .number r) (hs : ¬ l.Both .string r) :
    plus l r = .error (.typeMismatch .numbersOrStrings) := by
  unfold plus
  split
  · exact absurd ⟨rfl, rfl⟩ hn
  · exact absurd ⟨rfl, rfl⟩ hs
  · rfl

/-- An operator with a relation gives `true` or `false` as the relation holds. -/
theorem apply_of_denoting {op : BinaryOp} {R : Extended → Extended → Prop}
    (hop : op.relation? = some R) {x y : Number} (h : x.Denoting R y) :
    op.apply (.number x) (.number y) = .ok (.boolean true) :=
  (answers_relation hop x y).holds_iff.2 h

theorem apply_of_not_denoting {op : BinaryOp} {R : Extended → Extended → Prop}
    (hop : op.relation? = some R) {x y : Number} (h : ¬ x.Denoting R y) :
    op.apply (.number x) (.number y) = .ok (.boolean false) := by
  obtain ⟨b, hb, hR⟩ := answers_relation hop x y
  rw [hb, Bool.eq_false_iff.2 fun htrue => h (hR.1 htrue)]

end BinaryOp

theorem NumberRule.apply_eq {op : BinaryOp} {x y : Number} {v : Value} (h : NumberRule op x y v)
    (hz : ¬ (op = .div ∧ (Value.number y).IsZero)) :
    op.apply (.number x) (.number y) = .ok v := by
  cases h with
  | difference | product => rfl
  | quotient =>
    have hy : ¬ (Value.number y).IsZero := fun hzero => hz ⟨rfl, hzero⟩
    rw [BinaryOp.apply, BinaryOp.quotient_eq _ hy]
    rfl
  | holds _ hop hR => exact BinaryOp.apply_of_denoting hop hR
  | fails _ hop hR => exact BinaryOp.apply_of_not_denoting hop hR

theorem BinaryRule.apply_eq {op : BinaryOp} {l r : Value} {res : Except Fault Value}
    (h : BinaryRule op l r res) : op.apply l r = res := by
  cases h with
  | same hsame =>
    rw [Value.same_iff] at hsame
    rw [BinaryOp.apply, hsame]
  | different hother =>
    rw [Value.same_iff, Bool.not_eq_true] at hother
    rw [BinaryOp.apply, hother]
  | notSame hsame =>
    rw [Value.same_iff] at hsame
    rw [BinaryOp.apply, hsame]
    rfl
  | notDifferent hother =>
    rw [Value.same_iff, Bool.not_eq_true] at hother
    rw [BinaryOp.apply, hother]
    rfl
  | sum | join => rfl
  | addOther hn hs => exact BinaryOp.plus_other hn hs
  | zeroDivisor _ hz => exact if_pos ((BinaryOp.isZeroNumber_iff r).2 hz)
  | numbers hrule hz => exact hrule.apply_eq hz
  | numericOther hop hz hn =>
    -- Each of the operators goes through `onNumbers`, division once the divisor is no zero.
    simp only [List.mem_cons, List.not_mem_nil, or_false] at hop
    rcases hop with rfl | rfl | rfl | rfl | rfl | rfl | rfl
    case inr.inr.inl =>
      have hr : ¬ r.IsZero := fun hzero => hz ⟨rfl, hzero⟩
      rw [BinaryOp.apply, BinaryOp.quotient_eq _ hr]
      exact BinaryOp.onNumbers_other _ hn
    all_goals exact BinaryOp.onNumbers_other _ hn

/-- An operator of order has a rule for every two numbers. -/
theorem numberRule_order {op : BinaryOp} {R : Extended → Extended → Prop} (hne : op ≠ .eq)
    (hop : op.relation? = some R) (x y : Number) : ∃ v, NumberRule op x y v := by
  by_cases hR : x.Denoting R y
  · exact ⟨_, .holds hne hop hR⟩
  · exact ⟨_, .fails hne hop hR⟩

theorem exists_numberRule {op : BinaryOp} (hop : op ∈ [.sub, .mul, .div, .lt, .ltEq, .gt, .gtEq])
    (x y : Number) : ∃ v, NumberRule op x y v := by
  cases op with
  | sub => exact ⟨_, .difference x y⟩
  | mul => exact ⟨_, .product x y⟩
  | div => exact ⟨_, .quotient x y⟩
  | lt | ltEq | gt | gtEq => exact numberRule_order (by decide) rfl x y
  | add | eq | notEq => exact absurd hop (by decide)

/-- An operator on two numbers has a rule for every pair of operands. -/
theorem binaryRule_numeric {op : BinaryOp} (hop : op ∈ [.sub, .mul, .div, .lt, .ltEq, .gt, .gtEq])
    (l r : Value) : ∃ res, BinaryRule op l r res := by
  -- The order of the tests is the order of the table: a zero divisor first, then the kinds.
  by_cases hz : op = .div ∧ r.IsZero
  · obtain ⟨rfl, hr⟩ := hz
    exact ⟨_, .zeroDivisor l hr⟩
  · by_cases hn : l.Both .number r
    · rcases l with x | s | b | _ <;> rcases r with y | t | c | _ <;>
        simp only [Value.Both, Value.kind, reduceCtorEq, and_false, false_and] at hn
      obtain ⟨v, hrule⟩ := exists_numberRule hop x y
      exact ⟨_, .numbers hrule hz⟩
    · exact ⟨_, .numericOther hop hz hn⟩

theorem binaryRule_equality (l r : Value) :
    (∃ res, BinaryRule .eq l r res) ∧ ∃ res, BinaryRule .notEq l r res := by
  by_cases hsame : l.Same r
  · exact ⟨⟨_, .same hsame⟩, ⟨_, .notSame hsame⟩⟩
  · exact ⟨⟨_, .different hsame⟩, ⟨_, .notDifferent hsame⟩⟩

theorem binaryRule_add (l r : Value) : ∃ res, BinaryRule .add l r res := by
  by_cases hn : l.Both .number r
  · rcases l with x | s | b | _ <;> rcases r with y | t | c | _ <;>
      simp only [Value.Both, Value.kind, reduceCtorEq, and_false, false_and] at hn
    exact ⟨_, .sum x y⟩
  · by_cases hs : l.Both .string r
    · rcases l with x | s | b | _ <;> rcases r with y | t | c | _ <;>
        simp only [Value.Both, Value.kind, reduceCtorEq, and_false, false_and] at hs
      exact ⟨_, .join s t⟩
    · exact ⟨_, .addOther hn hs⟩

theorem binaryRule_iff (op : BinaryOp) (l r : Value) (res : Except Fault Value) :
    BinaryRule op l r res ↔ op.apply l r = res := by
  refine ⟨BinaryRule.apply_eq, ?_⟩
  rintro rfl
  -- Some rule applies, and what it says is what `apply` gives.
  have hsome : ∃ res, BinaryRule op l r res := by
    cases op with
    | add => exact binaryRule_add l r
    | eq => exact (binaryRule_equality l r).1
    | notEq => exact (binaryRule_equality l r).2
    | sub | mul | div | lt | ltEq | gt | gtEq => exact binaryRule_numeric (by decide) l r
  obtain ⟨res, hres⟩ := hsome
  rwa [hres.apply_eq]

/-! ## Expressions -/

/-- The message of a fault. -/
def Fault.sentence : Fault → String
  | .typeMismatch .number => "Operand must be a number"
  | .typeMismatch .numbers => "Operands must be numbers"
  | .typeMismatch .numbersOrStrings => "Operands must be two numbers or two strings"
  | .divisionByZero => "Cannot divide by 0"
  | .undefinedVariable name => "Undefined variable '" ++ name ++ "'."

/-- How an operator or a variable of the given line ends for a fault. -/
def Fault.endsAt (fault : Fault) (line : Nat) : Halt := .error ⟨fault, fault.sentence, some line⟩

theorem Fault.endsAt_eq (fault : Fault) (line : Nat) : fault.endsAt line = fault.raisedAt line := by
  rcases fault with (_ | _ | _) | _ | _ <;> rfl

/-- The value of a literal; the text of a string is looked up by its name. -/
def Literal.valueIn (text : Name → String) : Literal → Value
  | number x => .number x
  | string name => .string (text name)
  | boolean b => .boolean b
  | nil => .nil

/-- From the given scopes an expression ends in a value or a failure, and leaves these scopes. -/
inductive Evaluates (text : Name → String) :
    Tree → ScopeStack → Except Halt Value → ScopeStack → Prop where
  | literal (value : Literal) (s : ScopeStack) :
      Evaluates text (.literal value) s (.ok (value.valueIn text)) s
  | missing (size : Nat) (id : NodeId) (s : ScopeStack) :
      Evaluates text (.missing size id) s (.error (.missing size id)) s
  | grouping {inner : Tree} {s s' : ScopeStack} {res : Except Halt Value} :
      Evaluates text inner s res s' → Evaluates text (.grouping inner) s res s'
  | unary {op : UnaryOp} {operand : Tree} {line : Nat} {s s' : ScopeStack} {v : Value}
      {res : Except Fault Value} :
      Evaluates text operand s (.ok v) s' → UnaryRule op v res →
      Evaluates text (.unary op operand line) s (res.mapError (·.endsAt line)) s'
  | unaryHalt {op : UnaryOp} {operand : Tree} {line : Nat} {s s' : ScopeStack} {h : Halt} :
      Evaluates text operand s (.error h) s' →
      Evaluates text (.unary op operand line) s (.error h) s'
  | binary {op : BinaryOp} {left right : Tree} {line : Nat} {s s' s'' : ScopeStack} {l r : Value}
      {res : Except Fault Value} :
      Evaluates text left s (.ok l) s' → Evaluates text right s' (.ok r) s'' →
      BinaryRule op l r res →
      Evaluates text (.binary op left right line) s (res.mapError (·.endsAt line)) s''
  | leftHalt {op : BinaryOp} {left right : Tree} {line : Nat} {s s' : ScopeStack} {h : Halt} :
      Evaluates text left s (.error h) s' →
      Evaluates text (.binary op left right line) s (.error h) s'
  | rightHalt {op : BinaryOp} {left right : Tree} {line : Nat} {s s' s'' : ScopeStack} {l : Value}
      {h : Halt} :
      Evaluates text left s (.ok l) s' → Evaluates text right s' (.error h) s'' →
      Evaluates text (.binary op left right line) s (.error h) s''
  | read {name : Name} {line : Nat} {s : ScopeStack} {v : Value} :
      s.lookup? name = some v → Evaluates text (.read name line) s (.ok v) s
  | readUnbound {name : Name} {line : Nat} {s : ScopeStack} :
      s.lookup? name = none →
      Evaluates text (.read name line) s
        (.error ((Fault.undefinedVariable (text name)).endsAt line)) s
  | assign {name : Name} {value : Tree} {line : Nat} {s s' s'' : ScopeStack} {v : Value} :
      Evaluates text value s (.ok v) s' → s'.assign? name v = some s'' →
      Evaluates text (.assign name value line) s (.ok v) s''
  | assignUnbound {name : Name} {value : Tree} {line : Nat} {s s' : ScopeStack} {v : Value} :
      Evaluates text value s (.ok v) s' → s'.assign? name v = none →
      Evaluates text (.assign name value line) s
        (.error ((Fault.undefinedVariable (text name)).endsAt line)) s'
  | assignHalt {name : Name} {value : Tree} {line : Nat} {s s' : ScopeStack} {h : Halt} :
      Evaluates text value s (.error h) s' →
      Evaluates text (.assign name value line) s (.error h) s'

/-! ## Statements -/

/-- How statements end: the result, the scopes they leave, and the lines they wrote. -/
structure Ending (α : Type) where
  result : Except Halt α
  scopes : ScopeStack
  lines : List Line

mutual

/-- From the given scopes a statement ends so. -/
inductive Executes (text : Name → String) : StmtTree → ScopeStack → Ending Unit → Prop where
  | expression {value : Tree} {s s' : ScopeStack} {v : Value} :
      Evaluates text value s (.ok v) s' → Executes text (.expression value) s ⟨.ok (), s', []⟩
  | expressionHalt {value : Tree} {s s' : ScopeStack} {h : Halt} :
      Evaluates text value s (.error h) s' →
      Executes text (.expression value) s ⟨.error h, s', []⟩
  | print {value : Tree} {s s' : ScopeStack} {v : Value} {line : String} :
      Evaluates text value s (.ok v) s' → v.Prints line →
      Executes text (.print value) s ⟨.ok (), s', [.printed line]⟩
  | printHalt {value : Tree} {s s' : ScopeStack} {h : Halt} :
      Evaluates text value s (.error h) s' → Executes text (.print value) s ⟨.error h, s', []⟩
  | declareNil (name : Name) (s : ScopeStack) :
      Executes text (.declare name none) s ⟨.ok (), s.define name .nil, []⟩
  | declare {name : Name} {init : Tree} {s s' : ScopeStack} {v : Value} :
      Evaluates text init s (.ok v) s' →
      Executes text (.declare name (some init)) s ⟨.ok (), s'.define name v, []⟩
  | declareHalt {name : Name} {init : Tree} {s s' : ScopeStack} {h : Halt} :
      Evaluates text init s (.error h) s' →
      Executes text (.declare name (some init)) s ⟨.error h, s', []⟩
  /-- The scope of a block is gone after it, however the block ends. -/
  | block {body : List StmtTree} {s s' : ScopeStack} {own : Bindings} {res : Except Halt Unit}
      {lines : List Line} :
      ExecutesAll text body (∅ :: s) ⟨res, own :: s', lines⟩ →
      Executes text (.block body) s ⟨res, s', lines⟩

/-- From the given scopes statements, one after the other, end so. -/
inductive ExecutesAll (text : Name → String) :
    List StmtTree → ScopeStack → Ending Unit → Prop where
  | nil (s : ScopeStack) : ExecutesAll text [] s ⟨.ok (), s, []⟩
  | cons {stmt : StmtTree} {rest : List StmtTree} {s s' s'' : ScopeStack}
      {res : Except Halt Unit} {lines lines' : List Line} :
      Executes text stmt s ⟨.ok (), s', lines⟩ → ExecutesAll text rest s' ⟨res, s'', lines'⟩ →
      ExecutesAll text (stmt :: rest) s ⟨res, s'', lines ++ lines'⟩
  | halt {stmt : StmtTree} {rest : List StmtTree} {s s' : ScopeStack} {h : Halt}
      {lines : List Line} :
      Executes text stmt s ⟨.error h, s', lines⟩ →
      ExecutesAll text (stmt :: rest) s ⟨.error h, s', lines⟩

end

/-- A program ends as its statements do. An error that ends it is reported with its line, and a
missing expression is not. -/
inductive Interprets (text : Name → String) :
    List StmtTree → ScopeStack → Ending Unit → Prop where
  | done {stmts : List StmtTree} {s s' : ScopeStack} {lines : List Line} :
      ExecutesAll text stmts s ⟨.ok (), s', lines⟩ →
      Interprets text stmts s ⟨.ok (), s', lines⟩
  | error {stmts : List StmtTree} {s s' : ScopeStack} {fault : Fault} {message : String}
      {line : Nat} {lines : List Line} :
      ExecutesAll text stmts s ⟨.error (.error ⟨fault, message, some line⟩), s', lines⟩ →
      Interprets text stmts s ⟨.error (.error ⟨fault, message, some line⟩), s',
        lines ++ [.reported (message ++ " [line " ++ toString line ++ "]")]⟩
  | missing {stmts : List StmtTree} {s s' : ScopeStack} {size : Nat} {id : NodeId}
      {lines : List Line} :
      ExecutesAll text stmts s ⟨.error (.missing size id), s', lines⟩ →
      Interprets text stmts s ⟨.error (.missing size id), s', lines⟩

/-! ## One ending at most -/

theorem UnaryRule.unique {op : UnaryOp} {v : Value} {r₁ r₂ : Except Fault Value}
    (h₁ : UnaryRule op v r₁) (h₂ : UnaryRule op v r₂) : r₁ = r₂ := by
  rw [← (unaryRule_iff op v r₁).1 h₁, (unaryRule_iff op v r₂).1 h₂]

theorem BinaryRule.unique {op : BinaryOp} {l r : Value} {r₁ r₂ : Except Fault Value}
    (h₁ : BinaryRule op l r r₁) (h₂ : BinaryRule op l r r₂) : r₁ = r₂ := by
  rw [← h₁.apply_eq, h₂.apply_eq]

/-- An expression has at most one ending. The induction is on the first derivation; the second one
ends in the same rule, because its parts ended alike. -/
theorem Evaluates.unique {text : Name → String} {t : Tree} {s s₁ s₂ : ScopeStack}
    {r₁ r₂ : Except Halt Value} (h₁ : Evaluates text t s r₁ s₁) (h₂ : Evaluates text t s r₂ s₂) :
    r₁ = r₂ ∧ s₁ = s₂ := by
  induction h₁ generalizing r₂ s₂ with
  | literal | missing => cases h₂; exact ⟨rfl, rfl⟩
  | grouping _ ih => cases h₂ with | grouping h => exact ih h
  | unary _ hrule ih =>
    cases h₂ with
    | unary h hrule₂ =>
      obtain ⟨hv, rfl⟩ := ih h
      cases hv
      rw [hrule.unique hrule₂]
      exact ⟨rfl, rfl⟩
    | unaryHalt h => cases (ih h).1
  | unaryHalt _ ih =>
    cases h₂ with
    | unary h _ => cases (ih h).1
    | unaryHalt h => exact ih h
  | binary _ _ hrule ihl ihr =>
    cases h₂ with
    | binary hl hr hrule₂ =>
      -- The right operand starts where the left one ended, so the left one is compared first.
      obtain ⟨hv, rfl⟩ := ihl hl
      cases hv
      obtain ⟨hw, rfl⟩ := ihr hr
      cases hw
      rw [hrule.unique hrule₂]
      exact ⟨rfl, rfl⟩
    | leftHalt hl => cases (ihl hl).1
    | rightHalt hl hr =>
      obtain ⟨-, rfl⟩ := ihl hl
      cases (ihr hr).1
  | leftHalt _ ihl =>
    cases h₂ with
    | binary hl _ _ | rightHalt hl _ => cases (ihl hl).1
    | leftHalt hl => exact ihl hl
  | rightHalt _ _ ihl ihr =>
    cases h₂ with
    | binary hl hr _ =>
      obtain ⟨-, rfl⟩ := ihl hl
      cases (ihr hr).1
    | leftHalt hl => cases (ihl hl).1
    | rightHalt hl hr =>
      obtain ⟨-, rfl⟩ := ihl hl
      exact ihr hr
  | read hv =>
    cases h₂ with
    | read hv₂ => exact ⟨congrArg _ (Option.some.inj (hv.symm.trans hv₂)), rfl⟩
    | readUnbound hv₂ => cases hv.symm.trans hv₂
  | readUnbound hv =>
    cases h₂ with
    | read hv₂ => cases hv.symm.trans hv₂
    | readUnbound hv₂ => exact ⟨rfl, rfl⟩
  | assign _ hs ih =>
    cases h₂ with
    | assign h hs₂ =>
      obtain ⟨hv, rfl⟩ := ih h
      cases hv
      exact ⟨rfl, Option.some.inj (hs.symm.trans hs₂)⟩
    | assignUnbound h hs₂ =>
      -- The same value and scopes, and yet the name is bound in one derivation only.
      obtain ⟨hv, rfl⟩ := ih h
      cases hv
      cases hs.symm.trans hs₂
    | assignHalt h => cases (ih h).1
  | assignUnbound _ hs ih =>
    cases h₂ with
    | assign h hs₂ =>
      obtain ⟨hv, rfl⟩ := ih h
      cases hv
      cases hs.symm.trans hs₂
    | assignUnbound h _ => exact ⟨rfl, (ih h).2⟩
    | assignHalt h => cases (ih h).1
  | assignHalt _ ih =>
    cases h₂ with
    | assign h _ | assignUnbound h _ => cases (ih h).1
    | assignHalt h => exact ih h

mutual

/-- A statement has at most one ending. -/
theorem Executes.unique {text : Name → String} : (t : StmtTree) → {s : ScopeStack} →
    {e₁ e₂ : Ending Unit} → Executes text t s e₁ → Executes text t s e₂ → e₁ = e₂
  | .expression _, _, _, _, h₁, h₂ => by
    cases h₁ with
    | expression h₁ | expressionHalt h₁ =>
      cases h₂ with
      | expression h₂ | expressionHalt h₂ =>
        obtain ⟨hr, rfl⟩ := h₁.unique h₂
        cases hr <;> rfl
  | .print _, _, _, _, h₁, h₂ => by
    cases h₁ with
    | print h₁ hline₁ =>
      cases h₂ with
      | print h₂ hline₂ =>
        obtain ⟨hr, rfl⟩ := h₁.unique h₂
        cases hr
        rw [hline₁.unique hline₂]
      | printHalt h₂ => cases (h₁.unique h₂).1
    | printHalt h₁ =>
      cases h₂ with
      | print h₂ => cases (h₁.unique h₂).1
      | printHalt h₂ =>
        obtain ⟨hr, rfl⟩ := h₁.unique h₂
        cases hr
        rfl
  | .declare _ none, _, _, _, h₁, h₂ => by
    cases h₁
    cases h₂
    rfl
  | .declare _ (some _), _, _, _, h₁, h₂ => by
    cases h₁ with
    | declare h₁ | declareHalt h₁ =>
      cases h₂ with
      | declare h₂ | declareHalt h₂ =>
        obtain ⟨hr, rfl⟩ := h₁.unique h₂
        cases hr <;> rfl
  | .block body, _, _, _, h₁, h₂ => by
    cases h₁ with
    | block h₁ =>
      cases h₂ with
      | block h₂ =>
        -- The bodies end alike, own scope included, and what is left of it is the same rest.
        cases ExecutesAll.unique body h₁ h₂
        rfl

/-- Statements have at most one ending. -/
theorem ExecutesAll.unique {text : Name → String} : (ts : List StmtTree) → {s : ScopeStack} →
    {e₁ e₂ : Ending Unit} → ExecutesAll text ts s e₁ → ExecutesAll text ts s e₂ → e₁ = e₂
  | [], _, _, _, h₁, h₂ => by
    cases h₁
    cases h₂
    rfl
  | t :: ts, _, _, _, h₁, h₂ => by
    cases h₁ with
    | cons h₁ hrest₁ =>
      cases h₂ with
      | cons h₂ hrest₂ =>
        cases Executes.unique t h₁ h₂
        cases ExecutesAll.unique ts hrest₁ hrest₂
        rfl
      | halt h₂ => cases Executes.unique t h₁ h₂
    | halt h₁ =>
      cases h₂ with
      | cons h₂ _ => cases Executes.unique t h₁ h₂
      | halt h₂ => exact Executes.unique t h₁ h₂

end

/-- A program has at most one ending. -/
theorem Interprets.unique {text : Name → String} {ts : List StmtTree} {s : ScopeStack}
    {e₁ e₂ : Ending Unit} (h₁ : Interprets text ts s e₁) (h₂ : Interprets text ts s e₂) :
    e₁ = e₂ := by
  cases h₁ with
  | done h₁ | error h₁ | missing h₁ =>
    cases h₂ with
    | done h₂ | error h₂ | missing h₂ => cases ExecutesAll.unique ts h₁ h₂ <;> rfl

/-! ## What the rules fail for -/

/-- A failure that the rules know: an error on a line, or a missing expression. -/
inductive Halt.Known : Halt → Prop where
  | error (fault : Fault) (message : String) (line : Nat) :
      Known (.error ⟨fault, message, some line⟩)
  | missing (size : Nat) (id : NodeId) : Known (.missing size id)

/-- If the result is a failure, it is one that the rules know. -/
def KnownEnd {α : Type} (res : Except Halt α) : Prop := ∀ halt, res = .error halt → halt.Known

theorem knownEnd_ok {α : Type} (a : α) : KnownEnd (.ok a) := nofun

theorem knownEnd_operator (res : Except Fault Value) (line : Nat) :
    KnownEnd (res.mapError (·.endsAt line)) := by
  intro halt hres
  cases res with
  | ok v => cases hres
  | error fault =>
    cases hres
    exact .error fault _ line

theorem Evaluates.known {text : Name → String} {t : Tree} {s s' : ScopeStack}
    {res : Except Halt Value} (h : Evaluates text t s res s') : KnownEnd res := by
  induction h with
  | literal | read | assign => exact knownEnd_ok _
  | missing size id =>
    rintro halt ⟨⟩
    exact .missing size id
  | readUnbound | assignUnbound =>
    rintro halt ⟨⟩
    exact .error _ _ _
  | unary | binary => exact knownEnd_operator _ _
  | grouping _ ih | unaryHalt _ ih | leftHalt _ ih | rightHalt _ _ _ ih | assignHalt _ ih =>
    exact ih

/-- A statement passes the failure of its expression on. -/
theorem Evaluates.known_error {text : Name → String} {t : Tree} {s s' : ScopeStack} {halt : Halt}
    (h : Evaluates text t s (.error halt) s') : KnownEnd (.error halt : Except Halt Unit) := by
  rintro halt' ⟨⟩
  exact h.known halt rfl

mutual

theorem Executes.known {text : Name → String} : (t : StmtTree) → {s s' : ScopeStack} →
    {res : Except Halt Unit} → {lines : List Line} → Executes text t s ⟨res, s', lines⟩ →
    KnownEnd res
  | .expression _, _, _, _, _, h => by
    cases h with
    | expression => exact knownEnd_ok ()
    | expressionHalt h => exact h.known_error
  | .print _, _, _, _, _, h => by
    cases h with
    | print => exact knownEnd_ok ()
    | printHalt h => exact h.known_error
  | .declare _ _, _, _, _, _, h => by
    cases h with
    | declareNil | declare => exact knownEnd_ok ()
    | declareHalt h => exact h.known_error
  | .block body, _, _, _, _, h => by
    cases h with
    | block h => exact ExecutesAll.known body h

theorem ExecutesAll.known {text : Name → String} : (ts : List StmtTree) →
    {s s' : ScopeStack} → {res : Except Halt Unit} → {lines : List Line} →
    ExecutesAll text ts s ⟨res, s', lines⟩ → KnownEnd res
  | [], _, _, _, _, h => by
    cases h
    exact knownEnd_ok ()
  | t :: ts, _, _, _, _, h => by
    cases h with
    | cons _ hrest => exact ExecutesAll.known ts hrest
    | halt h => exact Executes.known t h

end

end ScriptCore
