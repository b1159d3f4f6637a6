import ObjectLang.Proofs.ClassInvariant

/-! # Soundness of the check

If nothing was ever reported, every node of every body and every default obeys the rules, and what
stands in the tables of classes is what calls of methods mean.
-/

namespace ObjectLang.Checked

/-- The class `d` declares the method `m` under the name, not generic, and no class of the chain
before it does so. -/
structure Program.Nearest (p : Program) (c : ClassId) (n : String) (d : ClassId) (m : FuncId) :
    Prop where
  entry : (p.classAt d).methods[n]? = some (.inst m)
  owner : (p.functionAt m).owner = some d
  name : (p.functionAt m).name = n
  chain : ∃ before after, p.chain c = before ++ d :: after ∧
    ∀ e ∈ before, ∀ g, (p.classAt e).methods[n]? ≠ some (.inst g)

namespace Program

variable {p : Program} {c : ClassId} {n : String} {k : Nat} {m o : FuncId}

theorem ClassTable.nearest (hp : p.ClassTable)
    (h : (p.chain c).findSome? (p.ownMethod n) = some m) : ∃ d, p.Nearest c n d m := by
  rcases List.findSome?_eq_some_iff.mp h with ⟨before, d, after, hchain, hd, hbefore⟩
  rw [ownMethod_eq_some] at hd
  rcases hp.dispatching.entered hd with ⟨-, howner, hname⟩
  refine ⟨d, hd, howner, hname, before, after, hchain, fun e he g hg => ?_⟩
  rw [← ownMethod_eq_some, hbefore e he] at hg
  cases hg

end Program

end ObjectLang.Checked

namespace ObjectLang.Check

open Source Syntax Scope Names Checked

theorem FunctionRule.passes {src : Sources} {s : State} {f : FuncInst} (h : FunctionRule src s f) :
    (judgeOf s f).Passes f.nodes :=
  FuncInst.forall_mem_nodes.mpr ⟨h.body, fun init hinit => (h.inits init hinit).1⟩

end ObjectLang.Check

namespace ObjectLang

open Source Syntax Scope Checked Check

variable (name : String) (dependencies : List String) (files : List (File Hint)) {fuel : Nat}
  {s : State}

theorem checked_orderly (h : checkAll (Project.ofWritten name dependencies files).resolve.sources
      fuel {} = some ((), s)) :
    Orderly (Project.ofWritten name dependencies files).resolve.sources ⟨True, True⟩ {} s ∧
      Judged (Project.ofWritten name dependencies files).resolve.sources ⟨True, True⟩ s := by
  rcases orderly_checkAll (regular_sources name dependencies files) orderly_start
    judged_start h with ⟨hs, -, hjudged⟩
  exact ⟨hs, hjudged⟩

/-- If nothing was ever reported in the check of a project, whatever was for its names, every part
of every function obeys the typing rules, a function has a value for what it returns, and every
default is one for its field. -/
theorem typing_of_clean
    (h : checkAll (Project.ofWritten name dependencies files).resolve.sources fuel {} =
      some ((), s))
    (hclean : s.Clean) (f : FuncId) (hf : f < s.program.functions.size) :
    (∀ n ∈ (s.program.functionAt f).nodes, (judgeOf s (s.program.functionAt f)).Typing n) ∧
      (∀ b symbol, (s.program.functionAt f).body = some b →
        (s.program.functionAt f).symbol = some symbol →
        ((Project.ofWritten name dependencies files).resolve.tree.functionAt symbol).decl.body ≠
          none →
        (judgeOf s (s.program.functionAt f)).ResultRule b) ∧
      ∀ init ∈ (s.program.functionAt f).fieldInits, ∃ c, (s.program.functionAt f).owner = some c ∧
        (judgeOf s (s.program.functionAt f)).InitRule c init := by
  have hrule := (checked_orderly name dependencies files h).2.sound trivial hclean f hf
  exact ⟨fun n hn => (hrule.passes n hn).1, hrule.result,
    fun init hinit => (hrule.inits init hinit).2⟩

theorem typing_shapes :
    ∃ s, checkAll (Project.ofWritten "app" [] shapes).resolve.sources 50 {} = some ((), s) ∧
    s.Clean ∧
      4 < s.program.functions.size ∧ (s.program.functionAt 4).nodes.length = 3 ∧
      ∀ n ∈ (s.program.functionAt 4).nodes, (judgeOf s (s.program.functionAt 4)).Typing n := by
  rcases checkAll_shapes with ⟨s, h, hclean, -⟩
  have hrun : ((checkAll (Project.ofWritten "app" [] shapes).resolve.sources 50 {}).any fun r =>
      decide (4 < r.2.program.functions.size) &&
        (r.2.program.functionAt 4).nodes.length == 3) = true := by decide +kernel
  simp only [h, Option.any_some, Bool.and_eq_true, beq_iff_eq, decide_eq_true_eq] at hrun
  exact ⟨s, h, hclean, hrun.1, hrun.2, (typing_of_clean "app" [] shapes h hclean 4 hrun.1).1⟩

end ObjectLang
