import Mathlib.Data.List.Nodup
import ObjectLang.Proofs.Layouts
import ObjectLang.Proofs.LiteralNames
import ObjectLang.Proofs.PublicRequests
import ObjectLang.Proofs.Spelling

/-! # The names in a module

Builtin functions, functions, drop functions, virtual tables and literals are all called in their
own ways. If nothing was declared under a name with a dot, a bracket or a mark, a name says what it
is the name of. There are two exceptions: a function that can be called from outside may be called
like a builtin function, and an extension may be called like a literal.
-/

namespace ObjectLang

theorem unmarked_toString (n : Nat) : Unmarked (toString n) := by
  intro h
  change '$' ∈ (Nat.repr n).toList at h
  rw [Nat.toList_repr] at h
  exact absurd (Nat.isDigit_of_mem_toDigits (by decide) (by decide) h) (by decide)

end ObjectLang

namespace ObjectLang.Code

open Scope Checked Check

/-- What a module has a name for. -/
inductive Item where
  | callee (c : Callee)
  | datum (d : Datum)
  deriving DecidableEq

namespace Item

def name (p : Program) : Item → String
  | callee c => c.name p
  | datum d => d.name p

/-- The functions and classes of the program may be meant, any builtin function and any literal. -/
def Within (p : Program) : Item → Prop
  | callee (.builtin _) => True
  | callee (.function f) => f < p.functions.size
  | callee (.drop c) => c < p.classes.size
  | datum (.vtable c) => c < p.classes.size
  | datum (.literal _) => True

end Item

theorem Builtin.plain_name (b : Builtin) : Plain b.name := by cases b <;> decide

theorem Builtin.name_injective : Function.Injective Builtin.name := by
  intro a b h
  cases a <;> cases b <;> first | rfl | exact absurd h (by decide)

/-- The function is declared in the root under the name and is applied to nothing. -/
structure InRoot (src : Sources) (p : Program) (f : FuncId) (kind : FunctionKind) (name : String) :
    Prop where
  lt : f < p.functions.size
  typeArgs : (p.functionAt f).typeArgs = []
  symbol : ∃ m, (p.functionAt f).symbol = some m ∧ (src.tree.functionAt m).owner = .ns Tree.root ∧
    (src.tree.functionAt m).kind = kind ∧ (src.tree.functionAt m).name = name

/-- The items that have one name. -/
inductive Shares (src : Sources) (p : Program) : Item → Item → Prop where
  | builtin {b : Builtin} {f : FuncId} (h : InRoot src p f .free b.name) :
      Shares src p (.callee (.builtin b)) (.callee (.function f))
  | literal {k : Nat} (h : InRoot src p k .extension "str") :
      Shares src p (.datum (.literal k)) (.callee (.function k))

/-- What is known of a checked program whose declarations have plain names. -/
structure Linked (src : Sources) (p : Program) : Prop where
  ordered : src.tree.Ordered
  spelled : src.tree.Spelled
  labels : Labels src True [] p
  placed : ∀ m, (src.tree.functionAt m).kind = .free → ∃ ns, (src.tree.functionAt m).owner = .ns ns
  single : ∀ {f g key}, f < p.functions.size → g < p.functions.size →
    (p.functionAt f).key? = some key → (p.functionAt g).key? = some key → f = g

/-- The function is the declaration in the namespace, which can be called from outside. -/
structure Exports (src : Sources) (p : Program) (f : FuncId) (m : SymbolId) (ns : NamespaceId) :
    Prop where
  symbol : (p.functionAt f).symbol = some m
  kind : (src.tree.functionAt m).kind = .free
  owner : (src.tree.functionAt m).owner = .ns ns
  typeArgs : (p.functionAt f).typeArgs = []

/-- What a name is put together from, with marks in between. -/
inductive Pieces (src : Sources) (p : Program) : Item → List String → Prop where
  | builtin (b : Builtin) : Pieces src p (.callee (.builtin b)) [b.name]
  | exported {f : FuncId} {m : SymbolId} {ns : NamespaceId} (hexports : Exports src p f m ns) :
      Pieces src p (.callee (.function f)) [src.tree.qualify ns (src.tree.functionAt m).name]
  | numbered {f : FuncId} {stem : String} (hstem : Stem src (p.functionAt f) stem) :
      Pieces src p (.callee (.function f)) [stem, toString f]
  | drop (c : ClassId) : Pieces src p (.callee (.drop c))
      [(p.classAt c).display, "drop", toString c]
  | vtable (c : ClassId) : Pieces src p (.datum (.vtable c))
      [(p.classAt c).display, "vtable", toString c]
  | literal (k : Nat) : Pieces src p (.datum (.literal k)) ["str", toString k]

variable {src : Sources} {p : Program} {x y : Item}

namespace Linked

/-- Every name can be put together from pieces without marks. -/
theorem exists_pieces (hp : Linked src p) (hx : x.Within p) :
    ∃ ps, Pieces src p x ps ∧ ps ≠ [] ∧ (∀ s ∈ ps, Unmarked s) ∧ x.name p = "$".intercalate ps := by
  have hdisplay (c : ClassId) := hp.labels.displays (hp.spelled.unmarked hp.ordered.rooted) c
  match x with
  | .callee (.builtin b) =>
    refine ⟨_, .builtin b, by simp, ?_, ?_⟩
    · simpa using b.plain_name.2.2
    · simp [Item.name, Callee.name]
  | .callee (.function f) =>
    cases hp.labels.functions f hx List.not_mem_nil with
    | exported _ hsymbol hkind htypeArgs hname =>
      obtain ⟨ns, hns⟩ := hp.placed _ hkind
      refine ⟨_, .exported ⟨hsymbol, hkind, hns, htypeArgs⟩, by simp, ?_, ?_⟩
      · simpa using (hp.spelled.unmarked hp.ordered.rooted).qualified hns
      · simpa [Item.name, Callee.name] using hname ns hns
    | numbered _ hstem hunmarked hname =>
      refine ⟨_, .numbered hstem, by simp, ?_, ?_⟩
      · simpa using ⟨hunmarked (hp.spelled.unmarked hp.ordered.rooted), unmarked_toString f⟩
      · simpa [Item.name, Callee.name, String.intercalate_cons_cons] using hname
  | .callee (.drop c) =>
    refine ⟨_, .drop c, by simp, ?_, ?_⟩
    · simpa using ⟨hdisplay c, by decide, unmarked_toString c⟩
    · simp [← String.toList_inj, Item.name, Callee.name, dropName, String.intercalate_cons_cons]
  | .datum (.vtable c) =>
    refine ⟨_, .vtable c, by simp, ?_, ?_⟩
    · simpa using ⟨hdisplay c, by decide, unmarked_toString c⟩
    · simp [← String.toList_inj, Item.name, Datum.name, vtableName, String.intercalate_cons_cons]
  | .datum (.literal k) =>
    refine ⟨_, .literal k, by simp, ?_, ?_⟩
    · simpa using ⟨by decide, unmarked_toString k⟩
    · simp [Item.name, Datum.name, literalName, String.intercalate_cons_cons]

variable {f : FuncId} {ns : NamespaceId} {m : SymbolId} {name : String}

section

variable (hp : Linked src p)

include hp

/-- A name in a namespace that is one in the root is the same name. -/
theorem eq_of_qualify (howner : (src.tree.functionAt m).owner = .ns ns)
    (hname : Plain name) (h : src.tree.qualify ns (src.tree.functionAt m).name = name) :
    ns = Tree.root ∧ (src.tree.functionAt m).name = name := by
  have hrooted := hp.ordered.rooted
  rw [← hrooted.qualify_root name] at h
  exact (hrooted.qualify_inj (hp.spelled.functions howner).1 (hp.spelled.names m)
    (Tree.clear_root _) hname).mp h

theorem key_of_exports (h : Exports src p f m ns) :
    (p.functionAt f).key? = some ⟨m, [], none⟩ ∧ m < src.tree.functions.size := by
  obtain ⟨hreceiver, hm⟩ := hp.labels.free trivial h.symbol h.kind h.owner
  refine ⟨?_, hm⟩
  rw [FuncInst.key?, h.symbol, h.typeArgs, hreceiver]
  rfl

/-- No two functions can be called from outside under one name. -/
theorem eq_of_exports {g : FuncId} (hf : f < p.functions.size) (hg : g < p.functions.size)
    {n : SymbolId} {ns' : NamespaceId} (h : Exports src p f m ns) (h' : Exports src p g n ns')
    (heq : src.tree.qualify ns (src.tree.functionAt m).name =
      src.tree.qualify ns' (src.tree.functionAt n).name) : f = g := by
  obtain ⟨rfl, hname⟩ :=
    (hp.ordered.rooted.qualify_inj (hp.spelled.functions h.owner).1 (hp.spelled.names m)
    (hp.spelled.functions h'.owner).1 (hp.spelled.names n)).mp heq
  obtain ⟨hkey, hm⟩ := hp.key_of_exports h
  obtain ⟨hkey', hn⟩ := hp.key_of_exports h'
  obtain rfl := hp.ordered.filed.free_unique hm hn h.kind h'.kind h.owner h'.owner hname
  exact hp.single hf hg hkey hkey'

theorem inRoot_of_exports (hf : f < p.functions.size) (h : Exports src p f m ns)
    (hname : Plain name) (heq : src.tree.qualify ns (src.tree.functionAt m).name = name) :
    InRoot src p f .free name := by
  obtain ⟨rfl, hdeclared⟩ := hp.eq_of_qualify h.owner hname heq
  exact ⟨hf, h.typeArgs, m, h.symbol, h.owner, h.kind, hdeclared⟩

/-- The stem of literals is that of an extension in the root. -/
theorem inRoot_of_stem (hf : f < p.functions.size) {stem : String}
    (h : Stem src (p.functionAt f) stem) (hstem : stem = "str") :
    InRoot src p f .extension "str" := by
  cases h with
  | own hsymbol howner hkind htypeArgs =>
    obtain ⟨rfl, hname⟩ := hp.eq_of_qualify howner (by decide) hstem
    exact ⟨hf, htypeArgs, _, hsymbol, howner, (hp.spelled.functions howner).2.resolve_left hkind,
      hname⟩
  | compound hcompound =>
    rw [hstem] at hcompound
    exact absurd hcompound (by decide)

/-- The pieces of a name tell whose it is. -/
theorem eq_or_shares_of_pieces (hx : x.Within p) (hy : y.Within p) {ps qs : List String}
    (hps : Pieces src p x ps) (hqs : Pieces src p y qs) (h : ps = qs) :
    x = y ∨ Shares src p x y ∨ Shares src p y x := by
  cases hps with
  | builtin b =>
    cases hqs with
    | builtin b' => exact .inl (by rw [Builtin.name_injective (List.singleton_inj.mp h)])
    | exported hexports =>
      have hname := (List.singleton_inj.mp h).symm
      exact .inr (.inl (.builtin (hp.inRoot_of_exports hy hexports b.plain_name hname)))
    | numbered | drop | vtable | literal => simp at h
  | exported hexports =>
    cases hqs with
    | builtin b =>
      have hname := List.singleton_inj.mp h
      exact .inr (.inr (.builtin (hp.inRoot_of_exports hx hexports b.plain_name hname)))
    | exported hexports' =>
      exact .inl (by rw [hp.eq_of_exports hx hy hexports hexports' (List.singleton_inj.mp h)])
    | numbered | drop | vtable | literal => simp at h
  | numbered hstem =>
    cases hqs with
    | numbered hstem' =>
      simp only [List.cons.injEq, and_true] at h
      exact .inl (by rw [Nat.repr_injective h.2])
    | literal k =>
      simp only [List.cons.injEq, and_true] at h
      obtain rfl := Nat.repr_injective h.2
      exact .inr (.inr (.literal (hp.inRoot_of_stem hx hstem h.1)))
    | builtin | exported | drop | vtable => simp at h
  | literal k =>
    cases hqs with
    | literal k' =>
      simp only [List.cons.injEq, and_true, true_and] at h
      exact .inl (by rw [Nat.repr_injective h])
    | numbered hstem =>
      simp only [List.cons.injEq, and_true] at h
      obtain rfl := Nat.repr_injective h.2
      exact .inr (.inl (.literal (hp.inRoot_of_stem hy hstem h.1.symm)))
    | builtin | exported | drop | vtable => simp at h
  | drop c =>
    cases hqs with
    | drop c' =>
      simp only [List.cons.injEq, and_true] at h
      exact .inl (by rw [Nat.repr_injective h.2.2])
    | builtin | exported | numbered | vtable | literal => simp at h
  | vtable c =>
    cases hqs with
    | vtable c' =>
      simp only [List.cons.injEq, and_true] at h
      exact .inl (by rw [Nat.repr_injective h.2.2])
    | builtin | exported | numbered | drop | literal => simp at h

theorem linkName_of_free (h : InRoot src p f .free name) :
    (p.functionAt f).linkName = name := by
  obtain ⟨hf, htypeArgs, m, hsymbol, howner, hkind, rfl⟩ := h
  cases hp.labels.functions f hf List.not_mem_nil with
  | exported _ hsymbol' _ _ hname =>
    cases hsymbol.symm.trans hsymbol'
    rw [hname _ howner, hp.ordered.rooted.qualify_root]
  | numbered _ hstem =>
    cases hstem with
    | own hsymbol' _ hkind' =>
      cases hsymbol.symm.trans hsymbol'
      exact absurd hkind hkind'
    | compound _ hother => exact absurd htypeArgs (hother hsymbol howner)

theorem linkName_of_extension (h : InRoot src p f .extension name) :
    (p.functionAt f).linkName = name ++ "$" ++ toString f := by
  obtain ⟨hf, htypeArgs, m, hsymbol, howner, hkind, rfl⟩ := h
  cases hp.labels.functions f hf List.not_mem_nil with
  | exported _ hsymbol' hkind' =>
    cases hsymbol.symm.trans hsymbol'
    cases hkind.symm.trans hkind'
  | numbered _ hstem _ hname =>
    rw [hname]
    cases hstem with
    | own hsymbol' howner' =>
      cases hsymbol.symm.trans hsymbol'
      cases howner.symm.trans howner'
      rw [hp.ordered.rooted.qualify_root]
    | compound _ hother => exact absurd htypeArgs (hother hsymbol howner)

theorem name_of_shares (h : Shares src p x y) : x.name p = y.name p := by
  cases h with
  | builtin h => exact (hp.linkName_of_free h).symm
  | literal h => exact (hp.linkName_of_extension h).symm

/-- Two items have one name just if they share it. -/
theorem name_inj (hx : x.Within p) (hy : y.Within p) :
    x.name p = y.name p ↔ x = y ∨ Shares src p x y ∨ Shares src p y x := by
  refine ⟨fun h => ?_, ?_⟩
  · obtain ⟨ps, hps, hne, hunmarked, hname⟩ := hp.exists_pieces hx
    obtain ⟨qs, hqs, hne', hunmarked', hname'⟩ := hp.exists_pieces hy
    rw [hname, hname'] at h
    exact hp.eq_or_shares_of_pieces hx hy hps hqs
      ((intercalate_inj hunmarked hne hunmarked' hne').mp h)
  · rintro (rfl | h | h)
    · rfl
    · exact hp.name_of_shares h
    · exact (hp.name_of_shares h).symm

end

end Linked

/-! ### In generated modules -/

theorem sublist_range {α β : Type} {f : α × Nat → Option β} {k : β → Nat}
    (h : ∀ {a i b}, f (a, i) = some b → k b = i) (as : List α) :
    ((as.zipIdx.filterMap f).map k).Sublist (List.range as.length) := by
  rw [List.range_eq_range', ← List.zipIdx_map_snd 0 as]
  generalize as.zipIdx = pairs
  induction pairs with
  | nil => exact .slnil
  | cons pair pairs ih =>
    cases hf : f pair with
    | none =>
      rw [List.filterMap_cons_none hf]
      exact ih.cons _
    | some b =>
      rw [List.filterMap_cons_some hf, List.map_cons, List.map_cons, h hf]
      exact ih.cons_cons _

theorem droppedClasses_sublist (ls : List Layout) :
    ((droppedClasses ls).map (·.1)).Sublist (List.range ls.length) := by
  rw [← List.length_map (·.referenceOffsets)]
  refine sublist_range (fun {offsets c b} h => ?_) _
  dsimp only at h
  split at h
  · cases h
  · cases h
    rfl

theorem virtualClasses_sublist (p : Program) :
    (virtualClasses p).Sublist (List.range p.classes.size) := by
  rw [← List.map_id (virtualClasses p), ← Array.length_toList]
  refine sublist_range (fun {c id b} h => ?_) _
  dsimp only at h
  split at h
  · cases h
  · cases h
    rfl

namespace Module

/-- What the module defines, in the order of its symbols. -/
def items (m : Module) : List Item :=
  (List.range m.program.functions.size).map (fun f => .callee (.function f)) ++
    ((droppedClasses m.layouts).map (·.1)).map (fun c => .callee (.drop c)) ++
    (virtualClasses m.program).map (fun c => .datum (.vtable c)) ++
    (List.range m.literals.size).map (fun k => .datum (.literal k))

theorem symbols_names (m : Module) : m.symbols.map (·.1) = m.items.map (·.name m.program) := by
  have hfunctions : m.program.functions.toList.map (·.linkName) =
      (List.range m.program.functions.size).map fun f => (m.program.functionAt f).linkName := by
    refine List.ext_getElem (by simp) fun i hi _ => ?_
    have hlt : i < m.program.functions.size := by simpa using hi
    simp [Program.functionAt, hlt]
  simp only [symbols, items, List.map_append, List.map_map]
  exact congrArg (· ++ _ ++ _ ++ _) hfunctions

theorem nodup_items (m : Module) : m.items.Nodup := by
  have hdrops := List.nodup_range.sublist (droppedClasses_sublist m.layouts)
  have htables := List.nodup_range.sublist (virtualClasses_sublist m.program)
  rw [items, List.nodup_append, List.nodup_append, List.nodup_append]
  refine ⟨⟨⟨?_, ?_, by grind⟩, ?_, by grind⟩, ?_, by grind⟩
  · exact List.nodup_range.map fun f g h => by simpa using h
  · exact hdrops.map fun c d h => by simpa using h
  · exact htables.map fun c d h => by simpa using h
  · exact List.nodup_range.map fun k l h => by simpa using h

variable {ptr : MachineType} {m : Module}

theorem within_items (h : generate ptr p = .ok m) (hx : x ∈ m.items) : x.Within p := by
  have hclasses : p.classes.size = m.layouts.length := by
    simpa using (forall₂_of_mapM_ok (layouts_of_generate h)).length_eq
  obtain rfl := (Simulation.generate_ok h).1
  simp only [items, List.mem_append, List.mem_map] at hx
  rcases hx with ((⟨f, hf, rfl⟩ | ⟨c, hc, rfl⟩) | ⟨c, hc, rfl⟩) | ⟨k, -, rfl⟩
  · exact List.mem_range.mp hf
  · change c < m.program.classes.size
    rw [hclasses]
    exact List.mem_range.mp ((droppedClasses_sublist m.layouts).subset (List.mem_map.mpr hc))
  · exact List.mem_range.mp ((virtualClasses_sublist m.program).subset hc)
  · trivial

/-- All names that a generated module defines are distinct. -/
theorem nodup_symbols (hp : Linked src p) (h : generate ptr p = .ok m) :
    (m.symbols.map (·.1)).Nodup := by
  rw [symbols_names]
  refine m.nodup_items.map_on fun x hx y hy hname => ?_
  have hliteral {k : Nat} (hk : Item.datum (.literal k) ∈ m.items) : k < m.literals.size := by
    simpa [items] using hk
  have hshares {x y : Item} (hx : x ∈ m.items) : ¬Shares src p x y := by
    intro hshares
    cases hshares with
    | builtin => simp [items] at hx
    | literal hroot =>
      exact literalName_ne_of_generate h hroot.lt (hliteral hx)
        (hp.linkName_of_extension hroot).symm
  have hprogram := (Simulation.generate_ok h).1
  rw [hprogram] at hname
  exact ((hp.name_inj (within_items h hx) (within_items h hy)).mp hname).resolve_right
    fun hxy => hxy.elim (hshares hx) (hshares hy)

/-- The module defines a builtin function just if the program does, in the root. -/
theorem mem_symbols_builtin (hp : Linked src p) (h : generate ptr p = .ok m) (b : Builtin) :
    b.name ∈ m.symbols.map (·.1) ↔ ∃ f, InRoot src p f .free b.name := by
  have hprogram := (Simulation.generate_ok h).1
  rw [symbols_names, hprogram, List.mem_map]
  refine ⟨fun ⟨x, hx, hname⟩ => ?_, fun ⟨f, hf⟩ => ?_⟩
  · have hnames := hp.name_inj (x := .callee (.builtin b)) trivial (within_items h hx)
    rcases hnames.mp hname.symm with rfl | hxy | hyx
    · simp [items] at hx
    · cases hxy with
      | builtin hroot => exact ⟨_, hroot⟩
    · cases hyx
  · refine ⟨.callee (.function f), ?_, hp.linkName_of_free hf⟩
    simpa [items, hprogram] using hf.lt

end Module

end ObjectLang.Code

namespace ObjectLang

open Syntax Scope Checked Check Code

theorem linked_of_analyze {name : String} {dependencies : List String} {files : List (File Hint)}
    (hplain : ∀ file ∈ files, file.Plain) {fuel : Nat} {a : Analysis}
    (h : (Project.ofWritten name dependencies files).analyze fuel = some a) :
    Linked (sourcesOf name dependencies files) a.program := by
  obtain ⟨⟨⟨⟩, s⟩, hrun, h⟩ := Option.bind_eq_some_iff.mp h
  cases h
  have hordered := Registry.ordered_ofFiles name dependencies (numberFiles files).1
  have hspelled := Registry.spelled_ofFiles name dependencies (plain_numberFiles hplain)
  have hreached : Reached (sourcesOf name dependencies files) s :=
    .single ⟨.all, fuel, none, trivial, bind_of_eq_some hrun⟩
  have hs := hreached.settled (regular_sources name dependencies files)
    (proper_sources name dependencies files)
  refine ⟨hordered, hspelled, (checked_orderly name dependencies files hrun).1.labels,
    fun m hkind => ?_, fun hf hg hkey hkey' => ?_⟩
  · by_cases hm : m < (sourcesOf name dependencies files).tree.functions.size
    · exact placed_sources name dependencies files m hm (.inl hkind)
    · refine ⟨0, ?_⟩
      rw [Tree.functionAt, Array.getD_eq_getD_getElem?, Array.getElem?_eq_none (Nat.not_lt.mp hm)]
      rfl
  · have hfor := hs.recorded.functions.mpr ⟨hf, hkey⟩
    exact Option.some.inj (hfor.symm.trans (hs.recorded.functions.mpr ⟨hg, hkey'⟩))

/-- If no declared name has a dot, a bracket or a mark, two of the builtin functions, functions,
drop functions, virtual tables and literals have one name just if they are the same, if a free
function in the root has the name of the builtin function, or if an extension in the root is called
like literals are and has the number of the literal.  In the last case there is no module: the names
that a generated module defines are distinct, and it defines a builtin function just if the program
has one of that name in the root. -/
theorem symbol_names_distinct (name : String) (dependencies : List String)
    (files : List (File Hint)) (hplain : ∀ file ∈ files, file.Plain) {fuel : Nat} {a : Analysis}
    (h : (Project.ofWritten name dependencies files).analyze fuel = some a) :
    (∀ x y : Item, x.Within a.program → y.Within a.program → (x.name a.program = y.name a.program ↔
      x = y ∨ Shares (sourcesOf name dependencies files) a.program x y ∨
        Shares (sourcesOf name dependencies files) a.program y x)) ∧
    ∀ ptr m, generate ptr a.program = .ok m → (m.symbols.map (·.1)).Nodup ∧
      ∀ b : Builtin, b.name ∈ m.symbols.map (·.1) ↔
        ∃ f, InRoot (sourcesOf name dependencies files) a.program f .free b.name := by
  have hlinked := linked_of_analyze hplain h
  exact ⟨fun x y hx hy => hlinked.name_inj hx hy, fun ptr m hm =>
    ⟨Module.nodup_symbols hlinked hm, Module.mem_symbols_builtin hlinked hm⟩⟩

/-- A class with a table and a reference, two functions of one name, a builtin function, an
extension that is called like literals are and a function with a type parameter. -/
def wares : List (File Hint) := [{
  id := 0
  ns := ["lib"]
  decls := [
    .cls {
      mark := none, name := "Ware"
      fields := [{ mark := none, name := "label", type := .primitive none .string
                   default := some (.str none "ware") }]
      methods := [{
        mark := none, name := "price", returnType := some (.primitive none .i64), isVirtual := true
        body := some (.mk none [] (some (.int none 1))) }] },
    .function { mark := none, name := "main", body := some (.mk none [] none) }] }, {
  id := 1
  decls := [
    .function {
      mark := none, name := "cinder_retain"
      params := [{ mark := none, name := "w", type := .named none ["lib", "Ware"] [] }]
      body := some (.mk none [] none) },
    .function {
      mark := none, name := "str", receiver := some (.primitive none .i64)
      returnType := some (.primitive none .i64), body := some (.mk none [] (some (.int none 1))) },
    .function {
      mark := none, name := "same", typeParams := ["T"]
      params := [{ mark := none, name := "x", type := .named none ["T"] [] }]
      returnType := some (.named none ["T"] []),
      body := some (.mk none [] (some (.ident none "x"))) },
    .function {
      mark := none, name := "main", returnType := some (.primitive none .i64)
      body := some (.mk none [] (some (.methodCall none
        (.call none ["same"] [.primitive none .i64] [.int none 2]) "str" [] []))) }] }]

theorem analyze_wares :
    ∃ a m, (Project.ofWritten "app" [] wares).analyze 50 = some a ∧ a.errors = [] ∧
      a.program.functions.size = 7 ∧ generate .i64 a.program = .ok m ∧
      m.symbols = [("Ware.price$0", false), ("Ware.init$1", false), ("lib.main", true),
        ("cinder_retain", true), ("str$4", false), ("main", true), ("same<i64>$6", false),
        ("Ware$drop$0", false), ("Ware$vtable$0", false), ("str$0", false)] ∧
      (a.program.functionAt 4).linkName = "str$4" := by
  have hrun : ((Project.ofWritten "app" [] wares).analyze 50).any (fun a => a.errors.isEmpty &&
      a.program.functions.size == 7 && (generate .i64 a.program).toOption.any (fun m =>
        m.symbols = [("Ware.price$0", false), ("Ware.init$1", false), ("lib.main", true),
          ("cinder_retain", true), ("str$4", false), ("main", true), ("same<i64>$6", false),
          ("Ware$drop$0", false), ("Ware$vtable$0", false), ("str$0", false)]) &&
      (a.program.functionAt 4).linkName == "str$4") = true := by
    decide +kernel
  simp only [Option.any_eq_true, Bool.and_eq_true, List.isEmpty_iff, beq_iff_eq, decide_eq_true_eq]
    at hrun
  obtain ⟨a, ha, ⟨⟨herrors, hsize⟩, m, hm, hsymbols⟩, hname⟩ := hrun
  exact ⟨a, m, ha, herrors, hsize, eq_ok_of_toOption hm, hsymbols, hname⟩

/-- Here a builtin function is defined, and the literal with the number of the extension is not. -/
theorem symbol_names_distinct_wares :
    ∃ a m, (Project.ofWritten "app" [] wares).analyze 50 = some a ∧ a.errors = [] ∧
      generate .i64 a.program = .ok m ∧ m.symbols.length = 10 ∧ (m.symbols.map (·.1)).Nodup ∧
      (∃ f, InRoot (sourcesOf "app" [] wares) a.program f .free Builtin.retain.name) ∧
      Shares (sourcesOf "app" [] wares) a.program (.datum (.literal 4))
      (.callee (.function 4)) := by
  obtain ⟨a, m, ha, herrors, hsize, hm, hsymbols, hname⟩ := analyze_wares
  obtain ⟨hnames, hmodule⟩ := symbol_names_distinct "app" [] wares (by decide +kernel) ha
  obtain ⟨hnodup, hbuiltin⟩ := hmodule .i64 m hm
  refine ⟨a, m, ha, herrors, hm, by rw [hsymbols]; rfl, hnodup, (hbuiltin .retain).mp ?_, ?_⟩
  · rw [hsymbols]
    decide
  · have hshared := (hnames (.datum (.literal 4)) (.callee (.function 4)) trivial
      (by change 4 < _; rw [hsize]; decide)).mp hname.symm
    rcases hshared with heq | hxy | hyx
    · cases heq
    · exact hxy
    · cases hyx

/-- An extension that is called like literals are, and a literal. -/
def stringly : List (File Hint) := [{
  id := 0
  decls := [
    .function {
      mark := none, name := "str", receiver := some (.primitive none .i64)
      returnType := some (.primitive none .i64), body := some (.mk none [] (some (.int none 1))) },
    .function {
      mark := none, name := "main", returnType := some (.primitive none .string)
      body := some (.mk none [] (some (.str none "a"))) }] }]

/-- The extension and the literal of `stringly` have one name, and no module is generated for that
reason. -/
theorem extension_named_like_literal :
    (∀ file ∈ stringly, file.Plain) ∧ ∃ a e,
      (Project.ofWritten "app" [] stringly).analyze 50 = some a ∧
      a.errors = [] ∧ Item.Within a.program (.callee (.function 0)) ∧
      Item.name a.program (.callee (.function 0)) = Item.name a.program (.datum (.literal 0)) ∧
      generate .i64 a.program = .error e ∧ e.kind = Error.clash.kind := by
  have hrun : ((Project.ofWritten "app" [] stringly).analyze 50).any (fun a => a.errors.isEmpty &&
      decide (0 < a.program.functions.size) && (a.program.functionAt 0).linkName == literalName 0 &&
      decide (((generate .i64 a.program).mapError (·.kind)).map (fun _ => ()) =
      .error Error.clash.kind)) =
        true := by
    decide +kernel
  simp only [Option.any_eq_true, Bool.and_eq_true, List.isEmpty_iff, beq_iff_eq, decide_eq_true_eq]
    at hrun
  obtain ⟨a, ha, ⟨⟨herrors, hsize⟩, hname⟩, hkind⟩ := hrun
  cases h : generate .i64 a.program with
  | ok m =>
    rw [h] at hkind
    cases hkind
  | error e =>
    rw [h] at hkind
    exact ⟨by decide +kernel, a, e, ha, herrors, hsize, hname, h, Except.error.inj hkind⟩

end ObjectLang
