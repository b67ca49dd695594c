import LineCalc.IR.Machine

/-!
# Routines as straight lines

A routine is built from left to right. An instruction goes to the end of the current block; a guard
ends that block with a branch, adds a block that returns a status, and goes on in a new one. Read in
this order a routine is a straight line of steps, and its blocks are the layout of that line.

* `layout`: the blocks that a line of steps is laid out in.
* `runSteps`: running a line of steps, without labels and jumps.
* `runBlocks_layout`: running the blocks of a line ends as running the line does.
-/

namespace LineCalc.IR

/-- A run that returns the number of a status. -/
def Halt.ofStatus (status : ExitStatus) : Halt := .returned (BitVec.ofInt 32 status.code)

/-- A step of a straight line: an instruction, or a guard with the label of the block that returns
the status and the label of the block in which the line goes on. -/
inductive Step
  | plain (instr : Instr)
  | guard (condition : Operand) (status : ExitStatus) (holds fails : String)
deriving DecidableEq

namespace Step

/-- The registers that a step sets. -/
def dests : Step → List String
  | .plain instr => instr.dest?.toList
  | .guard .. => []

/-- The names that a step introduces: registers and labels. -/
def names : Step → List String
  | .plain instr => instr.dest?.toList
  | .guard _ _ holds fails => [holds, fails]

/-- The operands of a step. -/
def operands : Step → List Operand
  | .plain instr => instr.operands
  | .guard condition .. => [condition]

/-- Steps after which the line cannot go on. A guard opens a new block. -/
def isTerminator : Step → Bool
  | .plain instr => instr.isTerminator
  | .guard .. => false

/-- Carry out a step. A guard whose condition fails goes on. -/
def run (step : Step) (s : State) : Next :=
  match step with
  | .plain instr => instr.step s
  | .guard condition status _ _ =>
    match s.bit? condition with
    | some true => .halt (.ofStatus status) s
    | some false => .go s
    | none => .halt .stuck s

/-- The registers that a step sets are among the names that it introduces. -/
theorem dests_subset_names (step : Step) : step.dests ⊆ step.names := by
  cases step <;> simp [dests, names]

end Step

/-- Carry out steps in order until one of them does not go on. -/
def runSteps : List Step → State → Next
  | [], s => .go s
  | step :: rest, s =>
    match step.run s with
    | .go s => runSteps rest s
    | next => next

/-- The blocks of a line of steps, given the label of the current block and the instructions that it
holds already. -/
def layout (label : String) (code : List Instr) : List Step → List Block
  | [] => [⟨label, code⟩]
  | .plain instr :: rest => layout label (code ++ [instr]) rest
  | .guard condition status holds fails :: rest =>
    ⟨label, code ++ [.branch condition holds fails]⟩ :: ⟨holds, [.ret status.code]⟩ ::
      layout fails [] rest

/-! ### Running lines -/

section Run

variable {s t : State} {steps rest : List Step} {step : Step}

theorem runSteps_cons_of_go (h : step.run s = .go t) :
    runSteps (step :: rest) s = runSteps rest t := by
  rw [runSteps, h]

theorem runSteps_cons_of_halt {halt : Halt} (h : step.run s = .halt halt t) :
    runSteps (step :: rest) s = .halt halt t := by
  rw [runSteps, h]

/-- A line that goes on is followed by the rest. -/
theorem runSteps_append_of_go (h : runSteps steps s = .go t) :
    runSteps (steps ++ rest) s = runSteps rest t := by
  induction steps generalizing s with
  | nil =>
    cases h
    rfl
  | cons step steps ih =>
    rw [runSteps] at h
    rw [List.cons_append, runSteps]
    split at h
    · exact ih h
    · rename_i hstep
      exact absurd h (hstep t)

/-- A line that ends the run keeps the rest from running. -/
theorem runSteps_append_of_halt {halt : Halt} (h : runSteps steps s = .halt halt t) :
    runSteps (steps ++ rest) s = .halt halt t := by
  induction steps generalizing s with
  | nil => cases h
  | cons step steps ih =>
    rw [runSteps] at h
    rw [List.cons_append, runSteps]
    split at h
    · exact ih h
    · exact h

end Run

/-! ### Running a layout -/

/-- The first block of a layout has the given label and starts with the given instructions. -/
theorem exists_layout_eq_cons (label : String) (code : List Instr) (steps : List Step) :
    ∃ tail rest, layout label code steps = ⟨label, code ++ tail⟩ :: rest := by
  induction steps generalizing code with
  | nil => exact ⟨[], [], by simp [layout]⟩
  | cons step steps ih =>
    cases step with
    | plain instr =>
      obtain ⟨tail, rest, h⟩ := ih (code ++ [instr])
      exact ⟨instr :: tail, rest, by rw [layout, h]; simp⟩
    | guard condition status holds fails => exact ⟨_, _, rfl⟩

/-- A block is found under its label if no other block has that label. -/
theorem find?_label {blocks : List Block} (hlabels : (blocks.map (·.label)).Nodup) {block : Block}
    (hmem : block ∈ blocks) : blocks.find? (·.label == block.label) = some block := by
  induction blocks with
  | nil => cases hmem
  | cons first blocks ih =>
    rw [List.map_cons, List.nodup_cons] at hlabels
    rcases List.mem_cons.1 hmem with rfl | hmem
    · simp
    · have hne : first.label ≠ block.label := fun h =>
        hlabels.1 (h ▸ List.mem_map_of_mem hmem)
      rw [List.find?_cons_of_neg (by simpa using hne), ih hlabels.2 hmem]

section Layout

variable {blocks : List Block} {steps : List Step} {label : String} {code : List Instr}
  {start s t : State} {halt : Halt} {count : Nat}

/-- A run enters the block of the given label. -/
theorem runFrom_of_mem (hlabels : (blocks.map (·.label)).Nodup) {block : Block}
    (hmem : block ∈ blocks) :
    runFrom blocks (count + 1) block.label s =
      match runCode block.code s with
      | .go s => (.stuck, s)
      | .jump label s => runFrom blocks count label s
      | .halt h s => (h, s) := by
  cases hcode : runCode block.code s <;> simp only [runFrom, find?_label hlabels hmem, hcode]

/-- A run that enters the layout of a line, and has carried out the code that its first block starts
with, ends as the line does. -/
theorem runFrom_layout (hlabels : (blocks.map (·.label)).Nodup)
    (hmem : ∀ block ∈ layout label code steps, block ∈ blocks)
    (hcode : ∀ tail, runCode (code ++ tail) start = runCode tail s)
    (hrun : runSteps steps s = .halt halt t)
    (hcount : (layout label code steps).length ≤ count) :
    runFrom blocks count label start = (halt, t) := by
  -- The code that was laid out in the current block has been run from `start` to `s`.
  induction steps generalizing label code start s count with
  | nil => cases hrun
  | cons step steps ih =>
    cases step with
    | plain instr =>
      cases hstep : instr.step s with
      | go next =>
        have hplain : (Step.plain instr).run s = .go next := hstep
        rw [runSteps_cons_of_go hplain] at hrun
        refine ih hmem (fun tail => ?_) hrun hcount
        rw [List.append_assoc, hcode, List.singleton_append, runCode, hstep]
      | jump target next => simp [runSteps, Step.run, hstep] at hrun
      | halt h next =>
        have hplain : (Step.plain instr).run s = .halt h next := hstep
        rw [runSteps_cons_of_halt hplain] at hrun
        cases hrun
        -- The rest of the block is laid out behind the instruction that halts, and not run.
        obtain ⟨tail, rest, hlayout⟩ := exists_layout_eq_cons label (code ++ [instr]) steps
        rw [layout, hlayout] at hmem hcount
        obtain ⟨count, rfl⟩ := Nat.exists_eq_add_of_le' (Nat.le_of_add_left_le hcount)
        rw [runFrom_of_mem hlabels (hmem _ List.mem_cons_self)]
        simp [hcode, runCode, hstep]
    | guard condition status holds fails =>
      -- A guard takes two blocks: the one that it ends and the one that returns its status.
      rw [layout] at hmem hcount
      simp only [List.length_cons] at hcount
      obtain ⟨count, rfl⟩ := Nat.exists_eq_add_of_le' (show 2 ≤ count by omega)
      have hguarded := hmem _ List.mem_cons_self
      have hexit := hmem _ (List.mem_cons_of_mem _ List.mem_cons_self)
      rw [runFrom_of_mem hlabels hguarded, hcode, runCode, Instr.step]
      cases hbit : s.bit? condition with
      | none =>
        rw [runSteps_cons_of_halt (by rw [Step.run, hbit])] at hrun
        cases hrun
        rfl
      | some holdsNow =>
        cases holdsNow with
        | true =>
          rw [runSteps_cons_of_halt (by rw [Step.run, hbit])] at hrun
          cases hrun
          exact runFrom_of_mem hlabels hexit
        | false =>
          rw [runSteps_cons_of_go (by rw [Step.run, hbit])] at hrun
          have hrest : ∀ block ∈ layout fails [] steps, block ∈ blocks := fun block hblock =>
            hmem _ (List.mem_cons_of_mem _ (List.mem_cons_of_mem _ hblock))
          -- The new block starts without code, so nothing of it has been run yet.
          show runFrom blocks (count + 1) fails s = (halt, t)
          exact ih hrest (fun tail => rfl) hrun (by omega)

/-- Running the blocks of a line ends as running the line does. -/
theorem runBlocks_layout (hlabels : ((layout label [] steps).map (·.label)).Nodup)
    (hrun : runSteps steps .init = .halt halt t) :
    runBlocks (layout label [] steps) = (halt, t) := by
  obtain ⟨tail, rest, hlayout⟩ := exists_layout_eq_cons label [] steps
  have h := runFrom_layout hlabels (fun _ h => h) (fun _ => rfl) hrun (Nat.le_refl _)
  rw [hlayout] at h ⊢
  exact h

end Layout

end LineCalc.IR
