import Mathlib.Data.List.Nodup
import Mathlib.Data.List.Pairwise
import Mathlib.Data.List.Perm.Basic
import LineCalc.Proofs.IR.ControlFlow
import LineCalc.Proofs.IR.Emission

/-!
# Emitted routines are well formed

The line of steps that emission appends sets every register before it uses it, gives each name to
one thing only, and ends a block nowhere but at a guard. All that is asked of the blocks of a
routine follows for the layout of such a line: its blocks form a chain, each of which goes on in the
next or returns, so a block is dominated by all blocks of the chain before it.

* `Scoped`: lines of steps that use only registers which are set.
* `wellFormed_layout`: the layout of a scoped line with distinct names is well formed.
* `Draft.assemble`: begin a routine, fill it with the code of some trees in turn, and end it.
* `Draft.assemble_wellFormed`: such a routine is well formed.
-/

namespace LineCalc

open IR

/-! ### Scopes -/

namespace IR

/-- An operand is a constant or one of the given registers. -/
def Operand.InScope (scope : List String) (operand : Operand) : Prop :=
  ∀ name, operand = .register name → name ∈ scope

/-- Each step uses only registers of the given scope and registers that a step before it sets. -/
def Scoped (scope : List String) : List Step → Prop
  | [] => True
  | step :: rest => (∀ operand ∈ step.operands, operand.InScope scope) ∧
    Scoped (scope ++ step.dests) rest

theorem Operand.InScope.mono {scope larger : List String} (hsub : scope ⊆ larger)
    {operand : Operand} (h : operand.InScope scope) : operand.InScope larger :=
  fun name hname => hsub (h name hname)

theorem Operand.inScope_const (scope : List String) (value : Int) :
    (Operand.const value).InScope scope := by
  intro name h
  cases h

theorem Operand.inScope_register {scope : List String} {name : String} :
    (Operand.register name).InScope scope ↔ name ∈ scope := by
  simp [InScope]

/-- A line is scoped if its first part is, and its second part after the first. -/
theorem scoped_append {scope : List String} {first second : List Step} :
    Scoped scope (first ++ second) ↔
      Scoped scope first ∧ Scoped (scope ++ first.flatMap Step.dests) second := by
  induction first generalizing scope with
  | nil => simp [Scoped]
  | cons step first ih => simp [Scoped, ih, and_assoc]

end IR

/-- The steps of an operation use its operands and what they set themselves. -/
theorem BinaryOp.Code.scoped {op : BinaryOp} {left right value : Operand} {steps : List Step}
    (h : op.Code left right steps value) {scope : List String} (hleft : left.InScope scope)
    (hright : right.InScope scope) :
    Scoped scope steps ∧ value.InScope (scope ++ steps.flatMap Step.dests) := by
  have hleftLater (set : List String) : left.InScope (scope ++ set) :=
    hleft.mono (List.subset_append_left _ _)
  have hrightLater (set : List String) : right.InScope (scope ++ set) :=
    hright.mono (List.subset_append_left _ _)
  cases h with
  | plain hop dest =>
    simp [Scoped, Step.operands, Instr.operands, Step.dests, Instr.dest?,
      Operand.inScope_register, hleft, hright]
  | div isZero isLeast isMinusOne overflows dest holds₁ fails₁ holds₂ fails₂ =>
    -- The checks set four registers before the operands are used for the last time.
    simp [divisionChecks, Scoped, Step.operands, Instr.operands, Step.dests, Instr.dest?,
      Operand.inScope_register, Operand.inScope_const, hright, hleftLater, hrightLater]

/-- The steps of a tree use only what they set themselves. -/
theorem Expr.Code.scoped {e : Expr} {steps : List Step} {value : Operand} (h : e.Code steps value)
    (scope : List String) :
    Scoped scope steps ∧ value.InScope (scope ++ steps.flatMap Step.dests) := by
  induction h generalizing scope with
  | num literal => exact ⟨trivial, Operand.inScope_const _ _⟩
  | binary hleft hright hop ihLeft ihRight =>
    obtain ⟨hleftScoped, ha⟩ := ihLeft scope
    obtain ⟨hrightScoped, hb⟩ := ihRight _
    -- The left value is still there when the right operand has been computed.
    obtain ⟨hopScoped, hvalue⟩ := hop.scoped (ha.mono (List.subset_append_left _ _)) hb
    refine ⟨scoped_append.2 ⟨hleftScoped, scoped_append.2 ⟨hrightScoped, hopScoped⟩⟩, ?_⟩
    simpa [List.append_assoc] using hvalue
  | print hbody format dest ih =>
    obtain ⟨hscoped, hvalue⟩ := ih scope
    have hvalueLater (set : List String) := hvalue.mono (List.subset_append_left _ set)
    refine ⟨scoped_append.2 ⟨hscoped, ?_⟩, by simpa using hvalueLater _⟩
    simpa [Scoped, Step.operands, Instr.operands, Step.dests, Instr.dest?,
      Operand.inScope_register] using hvalueLater _

namespace IR

/-! ### Names in a layout -/

/-- The labels that a step introduces. -/
def Step.labels : Step → List String
  | .plain _ => []
  | .guard _ _ holds fails => [holds, fails]

/-- The labels of a layout, in order. -/
theorem map_label_layout (label : String) (code : List Instr) (steps : List Step) :
    (layout label code steps).map (·.label) = label :: steps.flatMap Step.labels := by
  induction steps generalizing label code with
  | nil => rfl
  | cons step steps ih => cases step <;> simp [layout, Step.labels, ih]

/-- The registers that a layout sets, in order. -/
theorem flatMap_dests_layout (label : String) (code : List Instr) (steps : List Step) :
    (layout label code steps).flatMap (·.dests) =
      code.filterMap Instr.dest? ++ steps.flatMap Step.dests := by
  induction steps generalizing label code with
  | nil => simp [layout, Block.dests]
  | cons step steps ih =>
    cases step with
    | plain instr =>
      rw [layout, ih, List.filterMap_append, List.flatMap_cons, List.append_assoc]
      cases h : instr.dest? <;> simp [Step.dests, h]
    | guard condition status holds fails =>
      rw [layout, List.flatMap_cons, List.flatMap_cons, ih]
      simp [Block.dests, Step.dests, List.filterMap_cons, Instr.dest?]

/-- What a layout names is its first label and what the steps name. -/
theorem names_layout_perm (label : String) (steps : List Step) :
    ((layout label [] steps).map (·.label) ++ (layout label [] steps).flatMap (·.dests)).Perm
      (label :: steps.flatMap Step.names) := by
  have hnames (step : Step) : step.names = step.labels ++ step.dests := by
    cases step <;> simp [Step.names, Step.labels, Step.dests]
  rw [map_label_layout, flatMap_dests_layout, List.filterMap_nil, List.nil_append,
    List.cons_append, funext hnames]
  exact (List.flatMap_append_perm steps _ _).cons label

/-- Only terminators go on at a label. -/
theorem Instr.targets_eq_nil {instr : Instr} (h : instr.isTerminator = false) :
    instr.targets = [] := by
  cases instr <;> first | rfl | cases h

section Closed

-- A line that ends no block but with its guards, and then returns.
variable {label : String} {code : List Instr} {body : List Step} {number : Int}

/-- The labels that a layout goes on at, in order. -/
theorem flatMap_targets_layout (hcode : ∀ instr ∈ code, instr.isTerminator = false)
    (hbody : ∀ step ∈ body, step.isTerminator = false) :
    (layout label code (body ++ [.plain (.ret number)])).flatMap (·.targets) =
      body.flatMap Step.labels := by
  have htargets {code : List Instr} (hcode : ∀ instr ∈ code, instr.isTerminator = false) :
      code.flatMap Instr.targets = [] :=
    List.flatMap_eq_nil_iff.2 fun instr h => Instr.targets_eq_nil (hcode instr h)
  -- An instruction joins the code of the current block, so the code is general in the induction.
  induction body generalizing label code with
  | nil => simp [layout, Block.targets, htargets hcode, Instr.targets]
  | cons step body ih =>
    obtain ⟨hstep, hrest⟩ := List.forall_mem_cons.1 hbody
    cases step with
    | plain instr =>
      exact ih (List.forall_mem_append.2 ⟨hcode, List.forall_mem_singleton.2 hstep⟩) hrest
    | guard condition status holds fails =>
      rw [List.cons_append, layout, List.flatMap_cons, List.flatMap_cons, ih (by simp) hrest]
      simp [Block.targets, htargets hcode, Instr.targets, Step.labels]

/-- Each block of a layout ends with its only terminator. -/
theorem terminated_layout (hcode : ∀ instr ∈ code, instr.isTerminator = false)
    (hbody : ∀ step ∈ body, step.isTerminator = false) :
    ∀ block ∈ layout label code (body ++ [.plain (.ret number)]), block.Terminated := by
  induction body generalizing label code with
  | nil =>
    intro block hblock
    obtain rfl := List.mem_singleton.1 hblock
    exact ⟨code, _, rfl, rfl, hcode⟩
  | cons step body ih =>
    obtain ⟨hstep, hrest⟩ := List.forall_mem_cons.1 hbody
    cases step with
    | plain instr =>
      exact ih (List.forall_mem_append.2 ⟨hcode, List.forall_mem_singleton.2 hstep⟩) hrest
    | guard condition status holds fails =>
      intro block hblock
      rcases List.mem_cons.1 hblock with rfl | hblock
      · exact ⟨code, _, rfl, rfl, hcode⟩
      -- The second block is the one that returns the status of the guard.
      rcases List.mem_cons.1 hblock with rfl | hblock
      · exact ⟨[], _, rfl, rfl, by simp⟩
      · exact ih (by simp) hrest block hblock

/-- The branches of a layout go to blocks that come later in it. -/
theorem forward_layout (hcode : ∀ instr ∈ code, instr.isTerminator = false)
    (hbody : ∀ step ∈ body, step.isTerminator = false) {before after : List Block} {block : Block}
    (hsplit : layout label code (body ++ [.plain (.ret number)]) = before ++ block :: after) :
    ∀ target ∈ block.targets, target ∈ after.map (·.label) := by
  induction body generalizing label code before with
  | nil =>
    -- The last block returns, so it goes on nowhere.
    intro target htarget
    have hblock : block ∈ layout label code [.plain (.ret number)] := by
      rw [← List.nil_append [Step.plain _], hsplit]
      simp
    have hmem := List.mem_flatMap.2 ⟨block, hblock, htarget⟩
    rw [← List.nil_append [Step.plain _], flatMap_targets_layout hcode hbody] at hmem
    cases hmem
  | cons step body ih =>
    obtain ⟨hstep, hrest⟩ := List.forall_mem_cons.1 hbody
    cases step with
    | plain instr =>
      exact ih (List.forall_mem_append.2 ⟨hcode, List.forall_mem_singleton.2 hstep⟩) hrest hsplit
    | guard condition status holds fails =>
      rw [List.cons_append, layout] at hsplit
      rcases before with _ | ⟨first, _ | ⟨second, before⟩⟩
      · -- The guarded block goes on at the two blocks after it.
        obtain ⟨rfl, rfl⟩ := List.cons.inj hsplit
        intro target htarget
        have hnil : code.flatMap Instr.targets = [] :=
          List.flatMap_eq_nil_iff.2 fun instr h => Instr.targets_eq_nil (hcode instr h)
        rw [Block.targets, List.flatMap_append, hnil] at htarget
        rw [List.map_cons, map_label_layout]
        simp only [List.nil_append, List.flatMap_singleton, Instr.targets, List.mem_cons,
          List.not_mem_nil, or_false] at htarget
        rcases htarget with rfl | rfl <;> simp
      · obtain ⟨-, hsplit⟩ := List.cons.inj hsplit
        obtain ⟨rfl, rfl⟩ := List.cons.inj hsplit
        intro target htarget
        cases htarget
      · obtain ⟨-, hsplit⟩ := List.cons.inj hsplit
        obtain ⟨-, hsplit⟩ := List.cons.inj hsplit
        exact ih (by simp) hrest hsplit

/-- Every block of a layout can be reached if its first block can. -/
theorem reachable_layout {blocks : List Block}
    (hmem : ∀ block ∈ layout label code (body ++ [.plain (.ret number)]), block ∈ blocks)
    (hreach : ∃ visited, Path blocks (label :: visited)) :
    ∀ block ∈ layout label code (body ++ [.plain (.ret number)]),
      ∃ visited, Path blocks (block.label :: visited) := by
  induction body generalizing label code with
  | nil =>
    intro block hblock
    obtain rfl := List.mem_singleton.1 hblock
    exact hreach
  | cons step body ih =>
    cases step with
    | plain instr => exact ih hmem hreach
    | guard condition status holds fails =>
      rw [List.cons_append, layout] at hmem ⊢
      obtain ⟨hguarded, hrest⟩ := List.forall_mem_cons.1 hmem
      obtain ⟨visited, hpath⟩ := hreach
      -- Both blocks after a guard are one edge away from the block that it ends.
      have hedge {target : String} (h : target = holds ∨ target = fails) :
          Edge blocks label target := ⟨_, hguarded, rfl, by simp [Block.targets, Instr.targets, h]⟩
      refine List.forall_mem_cons.2 ⟨⟨visited, hpath⟩, List.forall_mem_cons.2 ⟨?_, ?_⟩⟩
      · exact ⟨_, hpath.step (hedge (.inl rfl))⟩
      · exact ih (List.forall_mem_cons.1 hrest).2 ⟨_, hpath.step (hedge (.inr rfl))⟩

end Closed

/-! ### Registers in a layout -/

/-- An instruction of scoped code uses registers of the scope and those set before it. -/
theorem mem_of_scoped {scope : List String} {before after : List Instr} {instr : Instr}
    (h : Scoped scope ((before ++ instr :: after).map .plain)) {name : String}
    (hname : .register name ∈ instr.operands) :
    (∃ other ∈ before, other.dest? = some name) ∨ name ∈ scope := by
  rw [List.map_append, scoped_append] at h
  have hmem := h.2.1 _ hname name rfl
  rcases List.mem_append.1 hmem with hmem | hmem
  · exact .inr hmem
  · left
    simpa [List.mem_flatMap, Step.dests] using hmem

/-- No label is gone on at from two places if each is the target of one branch only. -/
theorem Edge.source_unique {blocks : List Block} (htargets : (blocks.flatMap (·.targets)).Nodup)
    {first second target : String} (hfirst : Edge blocks first target)
    (hsecond : Edge blocks second target) : first = second := by
  obtain ⟨block, hblock, rfl, hmem⟩ := hfirst
  obtain ⟨other, hother, rfl, hmemOther⟩ := hsecond
  have hpairwise := (List.nodup_flatMap.1 htargets).2
  -- Different blocks share no target, in whichever order they come.
  have : Std.Symm (Function.onFun List.Disjoint fun b : Block => b.targets) :=
    ⟨fun _ _ h _ hsecond hfirst => h hfirst hsecond⟩
  by_contra hne
  exact hpairwise.forall hblock hother (fun h => hne (h ▸ rfl)) hmem hmemOther

/-- A block that dominates the only source of a label dominates that label. -/
theorem Dominates.of_source {blocks : List Block} {dominator source target : String}
    (hdominates : Dominates blocks dominator source)
    (hsource : ∀ other, Edge blocks other target → other = source)
    (hentry : ∀ first rest, blocks = first :: rest → first.label ≠ target) :
    Dominates blocks dominator target := by
  intro visited hpath
  cases hpath with
  | entry h => exact absurd rfl (hentry _ _ h)
  | step hpath hedge =>
    obtain rfl := hsource _ hedge
    exact List.mem_cons_of_mem _ (hdominates _ hpath)

/-- A register that scoped code uses is set before, if those in scope are set in blocks that
dominate this one. -/
theorem definedBefore_of_scoped {blocks passed : List Block} {block : Block} {scope : List String}
    (hpassed : ∀ other ∈ passed, other ∈ blocks ∧ other ≠ block)
    (hscope : ∀ name ∈ scope, ∃ other ∈ passed,
      Dominates blocks other.label block.label ∧ name ∈ other.dests)
    (hscoped : Scoped scope (block.code.map .plain)) :
    ∀ before instr after, block.code = before ++ instr :: after →
      ∀ name, .register name ∈ instr.operands → DefinedBefore blocks block before name := by
  intro before instr after hcode name hname
  rw [hcode] at hscoped
  rcases mem_of_scoped hscoped hname with h | h
  · exact .inl h
  · obtain ⟨other, hother, hdominates, hdest⟩ := hscope name h
    obtain ⟨hmem, hne⟩ := hpassed other hother
    exact .inr ⟨other, hmem, hne, hdominates, hdest⟩

/-- Blocks with distinct labels that come earlier are other blocks. -/
theorem mem_and_ne_of_split {blocks passed rest : List Block}
    (hlabels : (blocks.map (·.label)).Nodup) (hsplit : blocks = passed ++ rest) :
    ∀ block ∈ rest, ∀ other ∈ passed, other ∈ blocks ∧ other ≠ block := by
  intro block hblock other hother
  refine ⟨hsplit ▸ List.mem_append_left _ hother, ?_⟩
  rintro rfl
  rw [hsplit, List.map_append] at hlabels
  exact (List.nodup_append.1 hlabels).2.2 _ (List.mem_map_of_mem hother) _
    (List.mem_map_of_mem hblock) rfl

/-- Every register in a layout is set before it is used. The registers in scope at its start are set
in blocks that come before and dominate its first block. -/
theorem defined_layout {blocks passed : List Block} {label : String} {code : List Instr}
    {body : List Step} {number : Int} {scope : List String}
    (hlabels : (blocks.map (·.label)).Nodup) (htargets : (blocks.flatMap (·.targets)).Nodup)
    (hentry : ∀ first rest, blocks = first :: rest → first.label ∉ blocks.flatMap (·.targets))
    (hsplit : blocks = passed ++ layout label code (body ++ [.plain (.ret number)]))
    (hscoped : Scoped scope (code.map .plain ++ body))
    (hscope : ∀ name ∈ scope, ∃ other ∈ passed,
      Dominates blocks other.label label ∧ name ∈ other.dests) :
    ∀ block ∈ layout label code (body ++ [.plain (.ret number)]), ∀ before instr after,
      block.code = before ++ instr :: after →
      ∀ name, .register name ∈ instr.operands → DefinedBefore blocks block before name := by
  -- The blocks that are laid out wait in `passed`; what they set is in scope from then on.
  induction body generalizing label code passed scope with
  | nil =>
    intro block hblock
    have hpassed := mem_and_ne_of_split hlabels hsplit block hblock
    obtain rfl := List.mem_singleton.1 hblock
    refine definedBefore_of_scoped hpassed hscope ?_
    rw [List.append_nil] at hscoped
    rw [List.map_append, scoped_append]
    exact ⟨hscoped, by simp [Step.operands, Instr.operands], trivial⟩
  | cons step body ih =>
    cases step with
    | plain instr =>
      refine ih hsplit ?_ hscope
      rwa [List.map_append, List.append_assoc]
    | guard condition fault holds fails =>
      rw [List.cons_append, layout] at hsplit ⊢
      have hpassed := mem_and_ne_of_split hlabels hsplit _ List.mem_cons_self
      obtain ⟨hcodeScoped, hcondition, hrest⟩ := scoped_append.1 hscoped
      refine List.forall_mem_cons.2 ⟨?_, List.forall_mem_cons.2 ⟨?_, ?_⟩⟩
      · refine definedBefore_of_scoped hpassed hscope ?_
        rw [List.map_append, scoped_append]
        exact ⟨hcodeScoped, hcondition, trivial⟩
      · -- A return uses no register.
        intro before instr after hcode name hname
        have hinstr : instr ∈ [Instr.ret fault.code] := by
          simp [show [Instr.ret fault.code] = _ from hcode]
        rw [List.mem_singleton.1 hinstr] at hname
        cases hname
      · have hguarded : (⟨label, code ++ [.branch condition holds fails]⟩ : Block) ∈ blocks :=
          hsplit ▸ List.mem_append_right _ List.mem_cons_self
        have htarget :
            fails ∈ (⟨label, code ++ [.branch condition holds fails]⟩ : Block).targets := by
          simp [Block.targets, Instr.targets]
        -- The line goes on in a block that is entered from the guarded one only, so whatever
        -- dominates the guarded block dominates all blocks that follow.
        have hsource : ∀ other, Edge blocks other fails → other = label := fun other hedge =>
          hedge.source_unique htargets ⟨_, hguarded, rfl, htarget⟩
        have hfirst : ∀ first rest, blocks = first :: rest → first.label ≠ fails := by
          rintro first rest hblocks rfl
          exact hentry first rest hblocks (List.mem_flatMap.2 ⟨_, hguarded, htarget⟩)
        rw [List.append_cons, List.append_cons] at hsplit
        refine ih hsplit hrest fun name hname => ?_
        rw [Step.dests, List.append_nil] at hname
        rcases List.mem_append.1 hname with hname | hname
        · obtain ⟨other, hother, hdominates, hdest⟩ := hscope name hname
          exact ⟨other, by simp [hother], hdominates.of_source hsource hfirst, hdest⟩
        · refine ⟨⟨label, code ++ [.branch condition holds fails]⟩, by simp, ?_, ?_⟩
          · exact Dominates.of_source (fun _ _ => List.mem_cons_self) hsource hfirst
          · have hset : name ∈ code.filterMap Instr.dest? := by
              simpa [List.mem_flatMap, Step.dests] using hname
            rw [Block.dests, List.filterMap_append]
            exact List.mem_append_left _ hset

/-- The layout of a scoped line with distinct names, which returns at its end, is well formed. -/
theorem wellFormed_layout {label : String} {body : List Step} {number : Int}
    (hnames : (label :: body.flatMap Step.names).Nodup)
    (hbody : ∀ step ∈ body, step.isTerminator = false) (hscoped : Scoped [] body) :
    WellFormed (layout label [] (body ++ [.plain (.ret number)])) := by
  have hline : (body ++ [Step.plain (.ret number)]).flatMap Step.names =
      body.flatMap Step.names := by
    simp [Step.names, Instr.dest?]
  have hall := ((names_layout_perm label (body ++ [.plain (.ret number)])).nodup_iff).2
    (hline ▸ hnames)
  have hlabels := (List.nodup_append.1 hall).1
  -- The labels are the first one and the targets, in the same order.
  have hlabelsEq : (layout label [] (body ++ [.plain (.ret number)])).map (·.label) =
      label :: (layout label [] (body ++ [.plain (.ret number)])).flatMap (·.targets) := by
    rw [map_label_layout, flatMap_targets_layout (by simp) hbody]
    simp [Step.labels]
  obtain ⟨hentry, htargets⟩ := List.nodup_cons.1 (hlabelsEq ▸ hlabels)
  have hfirst : ∀ first rest, layout label [] (body ++ [.plain (.ret number)]) = first :: rest →
      first.label = label := by
    intro first rest h
    rw [h] at hlabelsEq
    exact (List.cons.inj hlabelsEq).1
  refine ⟨hall, terminated_layout (by simp) hbody, fun _ _ _ h => forward_layout (by simp) hbody h,
    ?_, ?_⟩
  · refine defined_layout hlabels htargets (fun first rest h => ?_) (List.nil_append _).symm hscoped
      (by simp)
    rwa [hfirst first rest h]
  · obtain ⟨tail, rest, hlayout⟩ := exists_layout_eq_cons label [] (body ++ [.plain (.ret number)])
    exact reachable_layout (fun _ h => h) ⟨[], Path.entry hlayout⟩

end IR

/-! ### Routines of several trees -/

/-- Append the code of some trees in turn. The operand holds the value of the last one. -/
def Expr.emitAll [Platform] (last : Operand) : List Expr → Emit Operand
  | [] => pure last
  | e :: rest => do
    let value ← e.emit
    emitAll value rest

/-- The code of trees in turn is scoped and has new names, and the value of the last tree is in
scope after it. -/
theorem Expr.emitAll_appends [Platform] {trees : List Expr}
    (htrees : ∀ e ∈ trees, e.isKnown = true ∧ e.depth ≤ walkLimit) {b : Builder}
    (hopen : b.isEnded = false) (last : Operand) :
    ∃ value steps names, Emit.Appends (emitAll last trees) b value steps names ∧
      ∀ scope, last.InScope scope →
        Scoped scope steps ∧ value.InScope (scope ++ steps.flatMap Step.dests) := by
  induction trees generalizing b last with
  | nil => exact ⟨last, [], b.names, .pure last b, fun scope h => ⟨trivial, by simpa using h⟩⟩
  | cons e trees ih =>
    obtain ⟨⟨hknown, hdepth⟩, hrest⟩ := List.forall_mem_cons.1 htrees
    obtain ⟨first, firstSteps, _, hfirst, hcode⟩ := emitTree_appends hknown hopen
    rw [← emit_eq_emitTree hdepth] at hfirst
    have hopen := hfirst.isEnded hopen
    obtain ⟨value, restSteps, names, happends, hscoped⟩ := ih hrest hopen first
    refine ⟨value, _, names, hfirst.bind happends, fun scope _ => ?_⟩
    -- What a tree sets stays in scope for the trees after it, which do not use it.
    obtain ⟨hfirstScoped, hfirstValue⟩ := hcode.scoped scope
    obtain ⟨hrestScoped, hvalue⟩ := hscoped _ hfirstValue
    rw [List.flatMap_append, ← List.append_assoc]
    exact ⟨scoped_append.2 ⟨hfirstScoped, hrestScoped⟩, hvalue⟩

/-- A routine that starts empty, is filled with scoped code and then ended is well formed. -/
theorem IR.Emit.Appends.wellFormed_finish {m : Emit Operand} {value : Operand} {steps : List Step}
    {names : Names} (h : Appends m Builder.init value steps names) (hscoped : Scoped [] steps)
    (hvalue : value.InScope (steps.flatMap Step.dests)) :
    ∃ after, Emit.finish value ((Builder.init.addAll steps).withNames names) = (.ok (), after) ∧
      WellFormed after.blocks := by
  obtain ⟨after, hfinish, hblocks⟩ := h.finish_init
  refine ⟨after, hfinish, ?_⟩
  rw [hblocks, List.append_cons]
  refine wellFormed_layout ?_ ?_ ?_
  -- The store names nothing and ends no block; it only uses the value.
  · have hline : (steps ++ [Step.plain (.store value)]).flatMap Step.names =
        steps.flatMap Step.names := by simp [Step.names, Instr.dest?]
    rw [hline]
    exact h.nodup_init
  · exact List.forall_mem_append.2 ⟨h.goesOn, List.forall_mem_singleton.2 rfl⟩
  · refine scoped_append.2 ⟨hscoped, fun operand hoperand => ?_, trivial⟩
    obtain rfl := List.mem_singleton.1 hoperand
    exact hvalue

namespace Draft

/-- Append the code of some trees in turn, given the value of the one before. The result is the
value of the last one. -/
def visitAll [Platform] (last : Option Operand) :
    List Expr → Draft → Except Defect (Option Operand) × Draft
  | [], d => (.ok last, d)
  | e :: rest, d =>
    match d.visit e with
    | (.ok value, d) => visitAll (some value) rest d
    | (.error defect, d) => (.error defect, d)

/-- Begin the routine, append the code of some trees in turn, and end it with the value of the last
one. -/
def assemble [Platform] (d : Draft) (trees : List Expr) : Except Defect Unit × Draft :=
  match d.create with
  | (.error defect, d) => (.error defect, d)
  | (.ok (), d) =>
    match visitAll none trees d with
    | (.error defect, d) => (.error defect, d)
    | (.ok value, d) => d.finish value

/-- Visits in turn append to the routine what the trees emit in turn. -/
theorem visitAll_eq [Platform] {trees : List Expr} {last value : Operand} {b after : Builder}
    (name : String) (h : Expr.emitAll last trees b = (.ok value, after)) :
    visitAll (some last) trees ⟨name, some b⟩ = (.ok (some value), ⟨name, some after⟩) := by
  induction trees generalizing last b with
  | nil =>
    cases h
    rfl
  | cons e trees ih =>
    cases hemit : e.emit b with
    | mk outcome middle =>
      cases outcome with
      | error defect =>
        rw [Expr.emitAll, bind_of_error hemit] at h
        cases h
      | ok first =>
        rw [Expr.emitAll, bind_of_ok hemit] at h
        have hvisit : (⟨name, some b⟩ : Draft).visit e = (.ok first, ⟨name, some middle⟩) := by
          simp [visit, perform, hemit]
        rw [visitAll, hvisit]
        exact ih h

/-- A routine that is begun, filled with the code of some trees in turn and ended with the value of
the last one is well formed, and no path through it comes to a block twice. The routine of a single
tree is the one that the tree is compiled to. -/
theorem assemble_wellFormed [Platform] (name : String) {trees : List Expr} (hne : trees ≠ [])
    (htrees : ∀ e ∈ trees, e.isKnown = true ∧ e.depth ≤ walkLimit) :
    ∃ d blocks, (Draft.init name).assemble trees = (.ok (), d) ∧ d.module = ⟨name, some blocks⟩ ∧
      WellFormed blocks ∧ (∀ visited, Path blocks visited → visited.Nodup) ∧
      ∀ e, trees = [e] → e.compile name = .ok d.module := by
  obtain ⟨e, rest, rfl⟩ := List.exists_cons_of_ne_nil hne
  -- With a first tree there is no value before it that could matter.
  obtain ⟨value, steps, names, happends, hscoped⟩ :=
    Expr.emitAll_appends htrees Builder.isEnded_init (.const 0)
  obtain ⟨hsteps, hvalue⟩ := hscoped [] (Operand.inScope_const _ _)
  obtain ⟨b, hfinish, hwell⟩ := happends.wellFormed_finish hsteps hvalue
  have hvisits : visitAll none (e :: rest) ⟨name, some .init⟩ =
      (.ok (some value), ⟨name, some ((Builder.init.addAll steps).withNames names)⟩) :=
    visitAll_eq name happends.run
  refine ⟨⟨name, some b⟩, b.blocks, ?_, rfl, hwell, fun _ => hwell.path_nodup, ?_⟩
  · simp [assemble, create, Draft.init, hvisits, finish, perform, hfinish]
  · rintro tree htree
    obtain ⟨rfl, rfl⟩ := List.cons.inj htree
    have hemit : e.emit Builder.init =
        (.ok value, (Builder.init.addAll steps).withNames names) := by
      simpa [Expr.emitAll] using happends.run
    rw [Expr.compile, Expr.emitRoutine, bind_of_ok hemit, hfinish]
    rfl

open scoped Platform in
/-- Three divisions in one routine, two of them below a print: six guards follow each other. -/
theorem assemble_wellFormed_twice :
    let half : Expr := .binary (.num ⟨8, 8, none⟩) ⟨.div, .text "/", none⟩ (.num ⟨2, 2, none⟩)
    let trees := [half, .print none (.binary half ⟨.sub, .text "-", none⟩ half)]
    (∀ e ∈ trees, e.isKnown = true ∧ e.depth ≤ walkLimit) ∧
      ∃ d blocks, (Draft.init "calc").assemble trees = (.ok (), d) ∧
        d.module = ⟨"calc", some blocks⟩ ∧ WellFormed blocks ∧
        ∀ visited, Path blocks visited → visited.Nodup := by
  intro half trees
  have htrees : ∀ e ∈ trees, e.isKnown = true ∧ e.depth ≤ walkLimit := by decide
  obtain ⟨d, blocks, hassemble, hmodule, hwell, hpaths, -⟩ :=
    assemble_wellFormed "calc" (List.cons_ne_nil _ _) htrees
  exact ⟨htrees, d, blocks, hassemble, hmodule, hwell, hpaths⟩

end Draft

end LineCalc
