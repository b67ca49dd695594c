import LineCalc.IR.Module

/-!
# Control flow of a routine

Blocks are joined by the branches at their ends. A path follows these from the first block on, and a
block dominates another if no path reaches the other without it.

* `WellFormed`: what is asked of the blocks of a routine.
* `WellFormed.path_nodup`: no path through a well-formed routine comes to a block twice.
-/

namespace LineCalc.IR

namespace Block

/-- The registers that a block sets. -/
def dests (b : Block) : List String := b.code.filterMap Instr.dest?

/-- The labels that a block may go on at. -/
def targets (b : Block) : List String := b.code.flatMap Instr.targets

/-- A block ends with its only terminator. -/
def Terminated (b : Block) : Prop :=
  ∃ body last, b.code = body ++ [last] ∧ last.isTerminator = true ∧
    ∀ instr ∈ body, instr.isTerminator = false

end Block

/-- A routine may go from one label on to another. -/
def Edge (blocks : List Block) (source target : String) : Prop :=
  ∃ block ∈ blocks, block.label = source ∧ target ∈ block.targets

/-- The labels of the blocks that an execution enters, the latest first. -/
inductive Path (blocks : List Block) : List String → Prop
  | entry {first : Block} {rest : List Block} (h : blocks = first :: rest) :
    Path blocks [first.label]
  | step {source target : String} {visited : List String} (hpath : Path blocks (source :: visited))
      (hedge : Edge blocks source target) :
    Path blocks (target :: source :: visited)

/-- Every path to a label passes through another one. -/
def Dominates (blocks : List Block) (dominator label : String) : Prop :=
  ∀ visited, Path blocks (label :: visited) → dominator ∈ label :: visited

/-- The register of an operand is set before the instruction `before.length` of a block: by an
earlier instruction of that block, or in another block that dominates it. -/
def DefinedBefore (blocks : List Block) (block : Block) (before : List Instr) (name : String) :
    Prop :=
  (∃ instr ∈ before, instr.dest? = some name) ∨
    ∃ other ∈ blocks, other ≠ block ∧ Dominates blocks other.label block.label ∧
      name ∈ other.dests

/-- What is asked of the blocks of a routine. -/
structure WellFormed (blocks : List Block) : Prop where
  /-- Labels and registers all have different names. -/
  names_nodup : (blocks.map (·.label) ++ blocks.flatMap (·.dests)).Nodup
  /-- Every block ends with its only terminator. -/
  terminated : ∀ block ∈ blocks, block.Terminated
  /-- Every branch goes to the label of a block that comes later. -/
  forward : ∀ before block after, blocks = before ++ block :: after →
    ∀ target ∈ block.targets, target ∈ after.map (·.label)
  /-- Every register is set before it is used. -/
  defined : ∀ block ∈ blocks, ∀ before instr after, block.code = before ++ instr :: after →
    ∀ name, .register name ∈ instr.operands → DefinedBefore blocks block before name
  /-- Every block can be reached, so that domination is not idle. -/
  reachable : ∀ block ∈ blocks, ∃ visited, Path blocks (block.label :: visited)

/-! ### Paths -/

variable {blocks : List Block}

/-- With forward branches only, an edge goes to a label that comes later. -/
theorem Edge.idxOf_lt (hlabels : (blocks.map (·.label)).Nodup)
    (hforward : ∀ before block after, blocks = before ++ block :: after →
      ∀ target ∈ block.targets, target ∈ after.map (·.label))
    {source target : String} (h : Edge blocks source target) :
    (blocks.map (·.label)).idxOf source < (blocks.map (·.label)).idxOf target := by
  obtain ⟨block, hblock, rfl, htarget⟩ := h
  -- The source is at the split, and the target behind it and nowhere else.
  obtain ⟨before, after, rfl⟩ := List.append_of_mem hblock
  have hafter := hforward before block after rfl target htarget
  rw [List.map_append, List.map_cons] at hlabels ⊢
  obtain ⟨-, hrest, hdisjoint⟩ := List.nodup_append.1 hlabels
  have hsource : block.label ∉ before.map (·.label) := fun h =>
    hdisjoint _ h _ List.mem_cons_self rfl
  have htargetBefore : target ∉ before.map (·.label) := fun h =>
    hdisjoint _ h _ (List.mem_cons_of_mem _ hafter) rfl
  have hne : block.label ≠ target := by
    rintro rfl
    exact (List.nodup_cons.1 hrest).1 hafter
  rw [List.idxOf_append, if_neg hsource, List.idxOf_append, if_neg htargetBefore,
    List.idxOf_cons_self, List.idxOf_cons, beq_false_of_ne hne, cond_false]
  omega

/-- The labels of a path come one after the other in the text. -/
theorem Path.pairwise_idxOf (hlabels : (blocks.map (·.label)).Nodup)
    (hforward : ∀ before block after, blocks = before ++ block :: after →
      ∀ target ∈ block.targets, target ∈ after.map (·.label))
    {visited : List String} (h : Path blocks visited) :
    visited.Pairwise fun later earlier =>
      (blocks.map (·.label)).idxOf earlier < (blocks.map (·.label)).idxOf later := by
  induction h with
  | entry h => exact List.pairwise_singleton _ _
  | step hpath hedge ih =>
    have hlt := hedge.idxOf_lt hlabels hforward
    refine List.pairwise_cons.2 ⟨fun label hlabel => ?_, ih⟩
    rcases List.mem_cons.1 hlabel with rfl | hlabel
    · exact hlt
    · exact Nat.lt_trans ((List.pairwise_cons.1 ih).1 label hlabel) hlt

/-- No path through a well-formed routine comes to a block twice. -/
theorem WellFormed.path_nodup (h : WellFormed blocks) {visited : List String}
    (hpath : Path blocks visited) : visited.Nodup := by
  have hlabels := (List.nodup_append.1 h.names_nodup).1
  refine (hpath.pairwise_idxOf hlabels h.forward).imp ?_
  rintro later earlier hlt rfl
  exact Nat.lt_irrefl _ hlt

end LineCalc.IR
