import ObjectLang.Proofs.Agreement

/-! # The names that functions are linked under

A function that can be called from outside has its own name as seen from the root.  Any other has a
stem and, set off by a mark, its number; the stem tells where the function belongs and what it is
applied to.
-/

namespace ObjectLang

/-- The text does not have the mark that sets off a number. -/
def Unmarked (s : String) : Prop := '$' ∉ s.toList

instance (s : String) : Decidable (Unmarked s) := inferInstanceAs (Decidable (_ ∉ _))

theorem Unmarked.append {s t : String} (hs : Unmarked s) (ht : Unmarked t) : Unmarked (s ++ t) := by
  rw [Unmarked, String.toList_append, List.mem_append, not_or]
  exact ⟨hs, ht⟩

theorem unmarked_intercalate {sep : String} {xs : List String} (hsep : Unmarked sep)
    (hxs : ∀ x ∈ xs, Unmarked x) : Unmarked (sep.intercalate xs) := by
  rw [Unmarked, String.toList_intercalate]
  induction xs with
  | nil => simp
  | cons x xs ih =>
    obtain ⟨hx, hxs⟩ := List.forall_mem_cons.mp hxs
    cases xs with
    | nil =>
      rw [List.map_cons, List.map_nil, List.intercalate_singleton]
      exact hx
    | cons y ys =>
      rw [List.map_cons, List.map_cons, List.intercalate_cons_cons, List.mem_append,
        List.mem_append, not_or, not_or]
      exact ⟨⟨hx, hsep⟩, ih hxs⟩

/-- No name in the tree has the mark. -/
structure Scope.Tree.Unmarked (t : Scope.Tree) : Prop where
  structures : ∀ s, ObjectLang.Unmarked (t.structureAt s).decl.name
  paths : ∀ s, ObjectLang.Unmarked (t.structurePath s)
  functions : ∀ f, ObjectLang.Unmarked (t.functionAt f).name
  qualified : ∀ {f ns}, (t.functionAt f).owner = .ns ns →
    ObjectLang.Unmarked (t.qualify ns (t.functionAt f).name)

theorem Checked.Program.unmarked_displayTypeArgs {t : Scope.Tree} {p : Program} (ht : t.Unmarked)
    (hp : ∀ c, Unmarked (p.classAt c).display) (tys : List Ty) :
    Unmarked (p.displayTypeArgs t tys) := by
  have htype (ty : Ty) : Unmarked (p.displayType t ty) := by
    cases ty with
    | primitive k =>
      rw [displayType]
      cases k <;> decide
    | object c => exact hp c
    | protocol s => exact ht.paths s
    | enum s => exact ht.paths s
    | unknown =>
      rw [displayType]
      decide
  rw [displayTypeArgs]
  split
  · decide
  · refine .append (.append (by decide) (unmarked_intercalate (by decide) fun x hx => ?_))
      (by decide)
    obtain ⟨ty, -, rfl⟩ := List.mem_map.mp hx
    exact htype ty

end ObjectLang

namespace ObjectLang.Check

open Scope Checked

/-- What a function has before its number: its own name as seen from the root if it stands in a
namespace and is applied to nothing, and otherwise a text that has a dot or a bracket in it. -/
inductive Stem (src : Sources) (f : FuncInst) : String → Prop where
  | own {m : SymbolId} {ns : NamespaceId} (hsymbol : f.symbol = some m)
      (howner : (src.tree.functionAt m).owner = .ns ns)
      (hkind : (src.tree.functionAt m).kind ≠ .free)
      (htypeArgs : f.typeArgs = []) : Stem src f (src.tree.qualify ns (src.tree.functionAt m).name)
  | compound {stem : String} (h : '.' ∈ stem.toList ∨ '<' ∈ stem.toList)
      (hother : ∀ {m ns}, f.symbol = some m → (src.tree.functionAt m).owner = .ns ns →
        f.typeArgs ≠ []) :
      Stem src f stem

/-- How the function with a number is linked. -/
inductive Label (src : Sources) (id : FuncId) (f : FuncInst) : Prop where
  | exported {m : SymbolId} (hexported : f.exported = true) (hsymbol : f.symbol = some m)
      (hkind : (src.tree.functionAt m).kind = .free) (htypeArgs : f.typeArgs = [])
      (hname : ∀ ns, (src.tree.functionAt m).owner = .ns ns →
        f.linkName = src.tree.qualify ns (src.tree.functionAt m).name)
  | numbered {stem : String} (hexported : f.exported = false) (hstem : Stem src f stem)
      (hunmarked : src.tree.Unmarked → Unmarked stem)
      (hname : f.linkName = stem ++ "$" ++ toString id)

/-- The functions are linked as they should be, but for those whose signature is being resolved.
Those who know what they ask for ask for a free function of the tree without a receiver. -/
structure Labels (src : Sources) (known : Prop) (signing : List FuncId) (p : Program) : Prop where
  displays : src.tree.Unmarked → ∀ c, Unmarked (p.classAt c).display
  functions : ∀ f < p.functions.size, f ∉ signing → Label src f (p.functionAt f)
  free : known → ∀ {f m ns}, (p.functionAt f).symbol = some m →
    (src.tree.functionAt m).kind = .free → (src.tree.functionAt m).owner = .ns ns →
    (p.functionAt f).receiver = none ∧ m < src.tree.functions.size

section

variable {src : Sources} (p : Program) (sym : FunctionSymbol) (id : FuncId) (args : List Ty)

theorem linkName_class (c : ClassId) :
    linkName src p sym id args (some c) true = (p.classAt c).display ++ "." ++ sym.name := rfl

variable {sym} in
theorem linkName_struct {s : StructureId} (h : sym.owner = .struct s) :
    linkName src p sym id args none true = src.tree.structurePath s ++ "." ++ sym.name := by
  cases sym
  cases h
  rfl

variable {sym} in
theorem linkName_ns {ns : NamespaceId} (h : sym.owner = .ns ns) :
    linkName src p sym id args none true = src.tree.qualify ns sym.name := by
  cases sym
  cases h
  rfl

theorem linkName_numbered (owner : Option ClassId) :
    linkName src p sym id args owner false =
      linkName src p sym id args owner true ++ p.displayTypeArgs src.tree args ++ "$" ++
      toString id := rfl

end

variable {src : Sources} {id : FuncId} {f g : FuncInst} {p q : Program} {known : Prop}
  {signing : List FuncId}

theorem Label.congr (h : Label src id f) (hsymbol : g.symbol = f.symbol)
    (htypeArgs : g.typeArgs = f.typeArgs)
    (hname : g.linkName = f.linkName) (hexported : g.exported = f.exported) : Label src id g := by
  cases h with
  | exported he hs hk ht hn =>
    exact .exported (hexported.trans he) (hsymbol.trans hs) hk (htypeArgs.trans ht) fun ns hns =>
      hname.trans (hn ns hns)
  | numbered he hstem hu hn =>
    refine .numbered (hexported.trans he) ?_ hu (hname.trans hn)
    cases hstem with
    | own hs ho hk ht => exact .own (hsymbol.trans hs) ho hk (htypeArgs.trans ht)
    | compound h hother =>
      refine .compound h fun {m ns} hg howner => ?_
      rw [htypeArgs]
      exact hother (hsymbol.symm.trans hg) howner

/-- The initializer that nobody wrote is called after its class. -/
theorem label_init {display : String} (hdisplay : src.tree.Unmarked → Unmarked display)
    (hsymbol : f.symbol = none) (hexported : f.exported = false)
    (hname : f.linkName = display ++ ".init$" ++ toString id) : Label src id f := by
  have hstem : Stem src f (display ++ ".init") := by
    refine .compound (.inl (by simp)) fun hf => ?_
    rw [hsymbol] at hf
    cases hf
  refine .numbered hexported hstem (fun ht => ?_) ?_
  · exact (hdisplay ht).append (by decide)
  · have hmark : ".init$" = ".init" ++ "$" := by decide
    rw [hname, hmark, ← String.append_assoc]

/-- Classes are called what they were called, and nothing that matters here was changed of a
function. -/
theorem Labels.congr (h : Labels src known signing p)
    (hdisplay : ∀ c, (q.classAt c).display = (p.classAt c).display)
    (hsize : q.functions.size = p.functions.size)
    (hrole : ∀ f, (q.functionAt f).symbol = (p.functionAt f).symbol ∧
      (q.functionAt f).typeArgs = (p.functionAt f).typeArgs ∧
      (q.functionAt f).receiver = (p.functionAt f).receiver)
    (hlink : ∀ f, f ∉ signing → (q.functionAt f).linkName = (p.functionAt f).linkName ∧
      (q.functionAt f).exported = (p.functionAt f).exported) : Labels src known signing q := by
  refine ⟨fun ht c => ?_, fun f hf hmem => ?_, fun hknown f m ns hsymbol hkind howner => ?_⟩
  · rw [hdisplay]
    exact h.displays ht c
  · obtain ⟨hname, hexported⟩ := hlink f hmem
    exact (h.functions f (hsize ▸ hf) hmem).congr (hrole f).1 (hrole f).2.1 hname hexported
  · rw [(hrole f).1] at hsymbol
    rw [(hrole f).2.2]
    exact h.free hknown hsymbol hkind howner

end ObjectLang.Check
