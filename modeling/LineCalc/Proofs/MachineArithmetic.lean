import LineCalc.Proofs.Backends
import LineCalc.Proofs.InOrder

/-!
# Evaluation as machine arithmetic

Evaluation computes with integers of any size, and takes a sum, a difference and a product modulo
the number of words, but not a quotient. On literals that are words it nevertheless does what a
machine does that knows only bit vectors: every integer on the way is the signed reading of one.

* `BinaryOp.onWords`, `Expr.evalWords`: operations and trees on bit vectors.
* `BinaryOp.apply_toInt`: an operation on signed readings is the operation on bit vectors.
* `Expr.finishes_or_stopsAt`: the subtrees are evaluated in order, up to the first division that has
  no result.
* `Expr.eval_eq_evalWords`: evaluation is evaluation on bit vectors.
-/

namespace LineCalc

/-! ### Operations -/

/-- An operation on bit vectors. Only a division can have no result: by zero, and of the least
signed number by minus one. -/
def BinaryOp.onWords : BinaryOp → BitVec 32 → BitVec 32 → Except Fault (BitVec 32)
  | .add, a, b => .ok (a + b)
  | .sub, a, b => .ok (a - b)
  | .mul, a, b => .ok (a * b)
  | .div, a, b =>
    if b = 0 then .error .divisionByZero
    else if a = BitVec.intMin 32 ∧ b = -1 then .error .divisionOverflow
    else .ok (a.sdiv b)

namespace Word

/-- The signed reading of a bit vector is a word. -/
theorem toInt_inRange (w : BitVec 32) : InRange w.toInt := by
  have hlo := w.le_toInt
  have hhi := w.toInt_lt
  simp only [InRange, minValue, maxValue] at *
  omega

/-- A bit vector is known by its signed reading. -/
theorem toInt_eq_iff (w : BitVec 32) {v : Int} (hv : InRange v) :
    w.toInt = v ↔ w = BitVec.ofInt 32 v := by
  rw [← BitVec.toInt_inj, toInt_ofInt_of_inRange hv]

end Word

namespace BinaryOp

/-- An operation on signed readings has the signed reading of the operation on the bit vectors, or
the same fault. -/
theorem apply_toInt (op : BinaryOp) (a b : BitVec 32) :
    op.apply a.toInt b.toInt = (op.onWords a b).map BitVec.toInt := by
  cases op with
  | add => exact congrArg Except.ok (BitVec.toInt_add a b).symm
  | sub => exact congrArg Except.ok BitVec.toInt_sub.symm
  | mul => exact congrArg Except.ok (BitVec.toInt_mul a b).symm
  | div =>
    have hzero : b.toInt = 0 ↔ b = 0 := Word.toInt_eq_iff b Word.zero_inRange
    have hoverflow : a.toInt = Word.minValue ∧ b.toInt = -1 ↔ a = BitVec.intMin 32 ∧ b = -1 :=
      and_congr (Word.toInt_eq_iff a Word.minValue_inRange)
        (Word.toInt_eq_iff b Word.minusOne_inRange)
    simp only [apply, onWords, hzero, hoverflow]
    split_ifs with hb hab
    · rfl
    · rfl
    · -- The quotient is a word already, so that reducing it changes nothing.
      have hword := Word.quotient_inRange (Word.toInt_inRange a) (mt hoverflow.1 hab)
      exact congrArg Except.ok ((Word.toInt_sdiv a b).trans (Word.wrap_of_inRange hword)).symm

/-- The faults of an operation on bit vectors. -/
theorem onWords_eq_error {op : BinaryOp} {a b : BitVec 32} {fault : Fault}
    (h : op.onWords a b = .error fault) :
    op = .div ∧ (b = 0 ∧ fault = .divisionByZero ∨
      a = BitVec.intMin 32 ∧ b = -1 ∧ fault = .divisionOverflow) := by
  cases op with
  | add | sub | mul => cases h
  | div =>
    simp only [onWords] at h
    split_ifs at h with hb hab
    · cases h
      exact ⟨rfl, .inl ⟨hb, rfl⟩⟩
    · cases h
      exact ⟨rfl, .inr ⟨hab.1, hab.2, rfl⟩⟩

end BinaryOp

/-! ### Trees -/

namespace Expr

/-- Evaluate a tree on bit vectors: what is printed, as signed numbers, and then the bit vector or
the reason why there is none. -/
def evalWords : Expr → List Int × Except (Failure ArithmeticError) (BitVec 32)
  | .num literal => ([], .ok (BitVec.ofInt 32 literal.value))
  | .binary left operator right =>
    match left.evalWords with
    | (before, .error failure) => (before, .error failure)
    | (before, .ok a) =>
      match right.evalWords with
      | (between, .error failure) => (before ++ between, .error failure)
      | (between, .ok b) =>
        match operator.op.onWords a b with
        | .ok w => (before ++ between, .ok w)
        | .error fault => (before ++ between, .error (.error ⟨fault, operator.position⟩))
  | .print _ body =>
    match body.evalWords with
    | (before, .error failure) => (before, .error failure)
    | (before, .ok w) => (before ++ [w.toInt], .ok w)
  | .unknown name => ([], .error (.defect (.unknownNode name)))

/-- Plain evaluation of a tree whose literals are words is evaluation on bit vectors. -/
theorem evalTree_eq_evalWords {e : Expr} (hrange : ∀ v ∈ e.literals, Word.InRange v) :
    e.evalTree = ⟨e.evalWords.1, e.evalWords.2.map BitVec.toInt⟩ := by
  induction e with
  | num literal =>
    have hliteral := hrange literal.value (List.mem_singleton_self _)
    rw [evalTree, evalWords]
    simp only [Except.map, Word.toInt_ofInt_of_inRange hliteral]
    rfl
  | unknown name => rfl
  | print position body ih =>
    rw [evalTree, ih hrange, evalWords]
    obtain ⟨before, _ | w⟩ := body.evalWords
    · rfl
    · simp only [Trace.bind, Except.map, Trace.print_of_inRange (Word.toInt_inRange w)]
  | binary left operator right ihLeft ihRight =>
    obtain ⟨hleft, hright⟩ := List.forall_mem_append.1 hrange
    rw [evalTree, ihLeft hleft, ihRight hright, evalWords]
    obtain ⟨before, _ | a⟩ := left.evalWords
    · rfl
    obtain ⟨between, _ | b⟩ := right.evalWords
    · rfl
    -- Both operands are signed readings, so the operation is that on bit vectors.
    simp only [Trace.bind, Except.map, Operator.apply, BinaryOp.apply_toInt]
    cases operator.op.onWords a b with
    | error fault => simp [Trace.fail]
    | ok w => simp [Trace.pure]

/-! ### The order of evaluation -/

/-- The numbers that the prints among some subtrees print. -/
def printedBy (trees : List Expr) : List Int :=
  trees.filterMap fun
    | .print _ body => (body.evalWords.2.map BitVec.toInt).toOption
    | _ => none

theorem printedBy_append (first second : List Expr) :
    printedBy (first ++ second) = printedBy first ++ printedBy second :=
  List.filterMap_append

/-- Every one of some subtrees has a bit vector as its value. -/
def AllComputed (trees : List Expr) : Prop := ∀ s ∈ trees, ∃ w, s.evalWords.2 = .ok w

/-- The whole tree is computed, and all its prints have printed. -/
structure Finishes (e : Expr) (w : BitVec 32) : Prop where
  evalWords_eq : e.evalWords = (printedBy e.subtrees, .ok w)
  computed : AllComputed e.subtrees

/-- The operator is the first one, in the order of evaluation, whose operation has no result: it is
a division by zero or of the least number by minus one. What comes before it is computed and its
prints have printed; what comes after it is not evaluated. -/
def StopsAt (e : Expr) (operator : Operator) (fault : Fault) : Prop :=
  ∃ done left right more a b, e.subtrees = done ++ .binary left operator right :: more ∧
    AllComputed done ∧ left.evalWords.2 = .ok a ∧ right.evalWords.2 = .ok b ∧
    operator.op = .div ∧
    (b = 0 ∧ fault = .divisionByZero ∨
      a = BitVec.intMin 32 ∧ b = -1 ∧ fault = .divisionOverflow) ∧
    e.evalWords = (printedBy done, .error (.error ⟨fault, operator.position⟩))

variable {e : Expr}

/-- A tree stops where a part of it does, if all is computed that comes before that part. -/
theorem StopsAt.extend {whole : Expr} {operator : Operator} {fault : Fault}
    (h : e.StopsAt operator fault) (before : List Expr) {after : List Expr}
    (hsubtrees : whole.subtrees = before ++ (e.subtrees ++ after)) (hbefore : AllComputed before)
    (hwhole : ∀ printed failure, e.evalWords = (printed, .error failure) →
      whole.evalWords = (printedBy before ++ printed, .error failure)) :
    whole.StopsAt operator fault := by
  obtain ⟨done, left, right, more, a, b, hsplit, hdone, ha, hb, hop, hfault, heval⟩ := h
  refine ⟨before ++ done, left, right, more ++ after, a, b, ?_,
    List.forall_mem_append.2 ⟨hbefore, hdone⟩, ha, hb, hop, hfault, ?_⟩
  · rw [hsubtrees, hsplit]
    simp
  · rw [hwhole _ _ heval, printedBy_append]

/-- A print is computed if its body is, and it prints last. -/
theorem Finishes.print {body : Expr} {w : BitVec 32} (h : body.Finishes w)
    (position : Option Position) : (Expr.print position body).Finishes w := by
  have heval : (Expr.print position body).evalWords =
      (printedBy body.subtrees ++ [w.toInt], .ok w) := by
    rw [evalWords, h.evalWords_eq]
  have hprinted : printedBy [.print position body] = [w.toInt] := by
    simp [printedBy, h.evalWords_eq, Except.map, Except.toOption]
  constructor
  · rw [heval, subtrees_print, printedBy_append, hprinted]
  · rw [subtrees_print]
    exact List.forall_mem_append.2
      ⟨h.computed, List.forall_mem_singleton.2 ⟨w, congrArg Prod.snd heval⟩⟩

/-- If both operands are computed, the operation itself decides. -/
theorem Finishes.binary {left right : Expr} {a b : BitVec 32} (hleft : left.Finishes a)
    (hright : right.Finishes b) (operator : Operator) :
    (∃ w, (Expr.binary left operator right).Finishes w) ∨
      ∃ fault, (Expr.binary left operator right).StopsAt operator fault := by
  have hoperands : AllComputed (left.subtrees ++ right.subtrees) :=
    List.forall_mem_append.2 ⟨hleft.computed, hright.computed⟩
  have hsubtrees := subtrees_binary left operator right
  rw [← List.append_assoc] at hsubtrees
  cases hop : operator.op.onWords a b with
  | ok w =>
    left
    have heval : (Expr.binary left operator right).evalWords =
        (printedBy (left.subtrees ++ right.subtrees), .ok w) := by
      rw [evalWords, hleft.evalWords_eq, hright.evalWords_eq, printedBy_append]
      simp only [hop]
    refine ⟨w, ?_, ?_⟩
    · rw [heval, hsubtrees, printedBy_append _ [_]]
      simp [printedBy]
    · rw [hsubtrees]
      exact List.forall_mem_append.2
        ⟨hoperands, List.forall_mem_singleton.2 ⟨w, congrArg Prod.snd heval⟩⟩
  | error fault =>
    right
    obtain ⟨hdiv, hfault⟩ := BinaryOp.onWords_eq_error hop
    refine ⟨fault, left.subtrees ++ right.subtrees, left, right, [], a, b, hsubtrees,
      hoperands, congrArg Prod.snd hleft.evalWords_eq, congrArg Prod.snd hright.evalWords_eq,
      hdiv, hfault, ?_⟩
    rw [evalWords, hleft.evalWords_eq, hright.evalWords_eq, printedBy_append]
    simp only [hop]

/-- A tree of known nodes is computed as a whole, or up to the first division without a result. -/
theorem finishes_or_stopsAt (hknown : e.isKnown = true) :
    (∃ w, e.Finishes w) ∨ ∃ operator fault, e.StopsAt operator fault := by
  induction e with
  | unknown name => cases hknown
  | num literal => exact .inl ⟨_, rfl, List.forall_mem_singleton.2 ⟨_, rfl⟩⟩
  | print position body ih =>
    rcases ih hknown with ⟨w, hbody⟩ | ⟨operator, fault, hstops⟩
    · exact .inl ⟨w, hbody.print position⟩
    · right
      refine ⟨operator, fault, hstops.extend [] (subtrees_print position body)
        (by simp [AllComputed]) fun printed failure h => ?_⟩
      rw [evalWords, h]
      rfl
  | binary left operator right ihLeft ihRight =>
    obtain ⟨hleftKnown, hrightKnown⟩ := Bool.and_eq_true_iff.1 hknown
    have hsubtrees := subtrees_binary left operator right
    -- The right operand is evaluated only if the left one does not stop, and the operator last.
    rcases ihLeft hleftKnown with ⟨a, hleft⟩ | ⟨first, fault, hstops⟩
    · rcases ihRight hrightKnown with ⟨b, hright⟩ | ⟨first, fault, hstops⟩
      · exact (hleft.binary hright operator).imp_right fun hstops => ⟨operator, hstops⟩
      · right
        refine ⟨first, fault,
          hstops.extend _ hsubtrees hleft.computed fun printed failure h => ?_⟩
        rw [evalWords, hleft.evalWords_eq, h]
    · right
      refine ⟨first, fault, hstops.extend [] hsubtrees (by simp [AllComputed])
        fun printed failure h => ?_⟩
      rw [evalWords, h]
      rfl

/-- Evaluation of a tree whose literals are words is evaluation on bit vectors, read as signed
numbers: the sums, differences and products wrap around, and quotients are truncated. It ends with a
word after all prints have printed, or at the first division without a result, with the place of
that division. -/
theorem eval_eq_evalWords [Platform] (hknown : e.isKnown = true)
    (hrange : ∀ v ∈ e.literals, Word.InRange v) (hdepth : e.depth ≤ walkLimit) :
    e.eval = ⟨e.evalWords.1, e.evalWords.2.map BitVec.toInt⟩ ∧
      ((∃ w, e.Finishes w ∧ e.eval = ⟨printedBy e.subtrees, .ok w.toInt⟩ ∧
          Word.InRange w.toInt) ∨
        ∃ operator fault, e.StopsAt operator fault ∧
          e.eval.outcome = .error (.error ⟨fault, operator.position⟩)) := by
  have heval : e.eval = ⟨e.evalWords.1, e.evalWords.2.map BitVec.toInt⟩ := by
    rw [eval_eq_evalTree hdepth, evalTree_eq_evalWords hrange]
  refine ⟨heval, ?_⟩
  rcases finishes_or_stopsAt hknown with ⟨w, hfinishes⟩ | ⟨operator, fault, hstops⟩
  · refine .inl ⟨w, hfinishes, ?_, Word.toInt_inRange w⟩
    rw [heval, hfinishes.evalWords_eq]
    rfl
  · refine .inr ⟨operator, fault, hstops, ?_⟩
    obtain ⟨done, left, right, more, a, b, -, -, -, -, -, -, hwords⟩ := hstops
    rw [heval, hwords]
    rfl

open scoped Platform in
/-- A sum that wraps around to the least number is printed and then divided by minus one. -/
theorem eval_eq_evalWords_overflow :
    let sum : Expr := .binary (.num ⟨2147483647, 2147483647, none⟩) ⟨.add, .text "+", none⟩
      (.num ⟨1, 1, none⟩)
    let e : Expr := .binary (.print none sum) ⟨.div, .text "/", some ⟨1, 21⟩⟩ (.num ⟨1, -1, none⟩)
    e.isKnown = true ∧ (∀ v ∈ e.literals, Word.InRange v) ∧ e.depth ≤ walkLimit ∧
      e.eval = ⟨[-2147483648], .error (.error ⟨.divisionOverflow, some ⟨1, 21⟩⟩)⟩ ∧
      ∃ operator, e.StopsAt operator .divisionOverflow ∧ operator.position = some ⟨1, 21⟩ := by
  intro sum e
  have hrange : ∀ v ∈ e.literals, Word.InRange v := by decide
  have hdepth : e.depth ≤ walkLimit := by decide
  obtain ⟨heval, hends⟩ := eval_eq_evalWords (e := e) rfl hrange hdepth
  have hfault : e.eval = ⟨[-2147483648], .error (.error ⟨.divisionOverflow, some ⟨1, 21⟩⟩)⟩ :=
    heval.trans rfl
  refine ⟨rfl, hrange, hdepth, hfault, ?_⟩
  rcases hends with ⟨w, -, hvalue, -⟩ | ⟨operator, fault, hstops, houtcome⟩
  · cases hfault.symm.trans hvalue
  · simp only [hfault, Except.error.injEq, Failure.error.injEq, ArithmeticError.mk.injEq]
      at houtcome
    obtain ⟨rfl, hplace⟩ := houtcome
    exact ⟨operator, hstops, hplace.symm⟩

end Expr

end LineCalc
