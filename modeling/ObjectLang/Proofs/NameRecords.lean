import ObjectLang.Proofs.NameWalk
import ObjectLang.Proofs.Registration

/-! # What name resolution records

Of every node, name resolution records the kind, the node right around it, whether it is a function
with a receiver, and what it names.  The walk over a file does so once for each node of the file, if
no two nodes share an id, and reports those that name nothing.
-/

namespace ObjectLang.Scope

open Source Syntax

/-- The chain of the namespace of a path: one namespace for each part of the path, innermost
first. -/
theorem Tree.Rooted.chain_lookup {t : Tree} (h : t.Rooted) {path : List String} {ns : NamespaceId}
    (hlookup : t.lookup path = some ns) : t.chain ns = path.inits.reverse.filterMap t.lookup := by
  induction path using List.reverseRecOn generalizing ns with
  | nil =>
    cases hlookup
    exact h.chain_root
  | append_singleton path segment ih =>
    obtain ⟨outer, houter, hchild⟩ := lookup_concat hlookup
    rw [h.chain_of_parent (h.child hchild).2.2.1, ih houter, List.inits_append]
    simp [hlookup]

theorem Registry.seated_ofFiles (project : String) (dependencies : List String)
    (files : List (File Mark)) :
    (ofFiles project dependencies files).tree.Rooted ∧
      ∀ entry ∈ (ofFiles project dependencies files).tree.files.toList,
        (ofFiles project dependencies files).tree.lookup entry.source.ns = some entry.ns := by
  refine ofFiles_induction (P := fun t => ∀ entry ∈ t.files.toList, t.lookup entry.source.ns =
    some entry.ns)
    project dependencies (fun _ h => absurd h List.not_mem_nil) (fun _ h hchange entry hentry => ?_)
    fun {t f ns} hns h entry hentry => ?_
  · rw [hchange.files_eq] at hentry
    exact hchange.deepens.lookupFrom (h entry hentry)
  · have hdeepens : t.Deepens (t.withFile f ns) := .refl t
    rcases List.mem_append.mp (Array.toList_push .. ▸ hentry) with hold | hnew
    · exact hdeepens.lookupFrom (h entry hold)
    · rw [List.mem_singleton.mp hnew]
      exact hdeepens.lookupFrom hns

end ObjectLang.Scope

namespace ObjectLang.Names

open Source Syntax Scope Diagnostic

/-! ### Scopes that bind type parameters -/

/-- The scope and those around it bind the type parameters `params`, the innermost ones first. -/
inductive Encloses (names : Resolution) : ScopeId → List String → Prop where
  | top {scope : ScopeId} {entry : LexicalScope} (h : names.scopes[scope]? = some entry)
      (hparent : entry.parent = none) : Encloses names scope entry.typeParams
  | inside {scope outer : ScopeId} {entry : LexicalScope} {params : List String}
      (h : names.scopes[scope]? = some entry) (hparent : entry.parent = some outer)
      (hlt : outer < scope)
      (houter : Encloses names outer params) : Encloses names scope (entry.typeParams ++ params)

namespace Encloses

variable {names names' : Resolution} {scope : ScopeId} {params : List String}

theorem mono (h : Encloses names scope params)
    (hscopes : names.scopes.toList <+: names'.scopes.toList) : Encloses names' scope params := by
  have hget {scope : ScopeId} {entry : LexicalScope} (h : names.scopes[scope]? = some entry) :
      names'.scopes[scope]? = some entry := by
    rw [← Array.getElem?_toList] at h ⊢
    rcases hscopes with ⟨later, hlater⟩
    rw [← hlater, List.getElem?_append_left (List.getElem?_eq_some_iff.mp h).1, h]
  induction h with
  | top h hparent => exact .top (hget h) hparent
  | inside h hparent hlt _ ih => exact .inside (hget h) hparent hlt ih

theorem lt (h : Encloses names scope params) : scope < names.scopes.size := by
  cases h with
  | top h => exact (Array.getElem?_eq_some_iff.1 h).1
  | inside h => exact (Array.getElem?_eq_some_iff.1 h).1

theorem any_scopeChain (h : Encloses names scope params) {bound : Nat} (hbound : scope < bound)
    (name : String) :
    (names.scopeChainWithin bound scope).any (fun s => (names.scopeAt s).typeParams.contains name) =
      params.contains name := by
  have hat {scope : ScopeId} {entry : LexicalScope} (h : names.scopes[scope]? = some entry) :
      names.scopeAt scope = entry := by
    rw [Resolution.scopeAt, Array.getD_eq_getD_getElem?, h, Option.getD_some]
  induction h generalizing bound with
  | top h hparent =>
    obtain ⟨bound, rfl⟩ := Nat.exists_eq_succ_of_ne_zero (Nat.ne_zero_of_lt hbound)
    simp [Resolution.scopeChainWithin, hat h, hparent]
  | inside h hparent hlt _ ih =>
    obtain ⟨bound, rfl⟩ := Nat.exists_eq_succ_of_ne_zero (Nat.ne_zero_of_lt hbound)
    rw [Resolution.scopeChainWithin, hat h, hparent, List.any_cons,
      ih (Nat.lt_of_lt_of_le hlt (Nat.le_of_lt_succ hbound)), hat h, List.contains_eq_mem,
      List.contains_eq_mem, List.contains_eq_mem]
    simp

theorem binds_iff (h : Encloses names scope params) {name : String} :
    names.bindsTypeParam scope name = true ↔ name ∈ params := by
  rw [Resolution.bindsTypeParam, Resolution.scopeChain, h.any_scopeChain (Nat.lt_succ_self scope),
    List.contains_iff_mem]

theorem openScope {r : Resolver} (h : Encloses r.names scope params) (entry : LexicalScope)
    (hentry : entry.parent = some scope) (owner : Option Nat) :
    Encloses (r.openScope entry owner).names r.nextScope (entry.typeParams ++ params) := by
  have hscopes : (r.openScope entry owner).names.scopes = r.names.scopes.push entry := rfl
  refine .inside ?_ hentry h.lt (h.mono ⟨[entry], ?_⟩)
  · rw [hscopes, Resolver.nextScope, Array.getElem?_push_size]
  · rw [hscopes, Array.toList_push]

end Encloses

/-! ### What names are looked up in -/

/-- What the names in a file are looked up in. -/
structure View where
  tree : Tree
  /-- The namespaces around the declarations of the file, innermost first. -/
  spaces : List NamespaceId
  /-- The namespaces that the uses of the file name, in order. -/
  imports : List NamespaceId

/-- The namespace of a file, the one around it and so on up to the root, and what its uses name. -/
def View.ofFile (t : Tree) (f : File Mark) : View where
  tree := t
  spaces := f.ns.inits.reverse.filterMap t.lookup
  imports := f.uses.filterMap fun u => t.lookup u.path

/-- The target that stands for what was found. -/
def Target.ofFound : Option StructureId → Target
  | some s => .struct s
  | none => .unknown

/-- What a path means below type parameters, and `unknown` if it means nothing. -/
def View.find (v : View) (params path : List String) : Target :=
  match path.reverse with
  | [] => .unknown
  | [name] =>
    if name ∈ params then .typeParam name
    else .ofFound (firstStructure v.tree name (v.spaces ++ v.imports))
  | name :: outer =>
    .ofFound ((v.tree.lookup outer.reverse).bind fun ns => v.tree.structureIn ns name)

/-- The file that is walked over has this view, and its imports are recorded. -/
structure View.Shows (v : View) (ctx : FileContext) (r : Resolver) : Prop where
  tree : v.tree = ctx.tree
  spaces : v.spaces = v.tree.chain ctx.ns
  imports : v.imports = r.names.importsOf ctx.file

variable {v : View} {ctx : FileContext} {r s t : Resolver} {scope : ScopeId}

theorem View.Shows.lookupType_eq {params : List String} (h : v.Shows ctx r)
    (hscope : Encloses r.names scope params) (path : List String) :
    r.lookupType ctx scope path = v.find params path := by
  rw [Resolver.lookupType.eq_def, find, h.imports, h.spaces, h.tree]
  match path.reverse with
  | [] => rfl
  | [name] =>
    simp only [hscope.binds_iff]
    rfl
  | name :: last :: rest => rfl

/-! ### Notes -/

/-- What is recorded of one node. -/
structure Note where
  kind : Option NodeKind := none
  parent : Option Nat := none
  receiver : Bool := false
  target : Option Target := none

/-- The note with a target, if one is given. -/
def Note.aim (note : Note) (target : Option Target) : Note :=
  { note with target := target.or note.target }

def Resolution.note (names : Resolution) (n : Nat) : Note :=
  ⟨names.kinds[n]?, names.parents[n]?, names.members.contains n, names.targets[n]?⟩

/-- The type parameters of some nodes, innermost first. -/
def paramsOf (above : List Fragment) : List String := above.flatMap Fragment.typeParams

namespace Site

/-- The node right around it; none for uses and for declarations of files. -/
def parent? (x : Site) : Option Nat := x.above.head?.map Fragment.id

/-- What is to be recorded of the node. -/
def note (v : View) (x : Site) : Note :=
  ⟨some x.node.kind, x.parent?, x.node.hasReceiver, x.node.named?.map (v.find (paramsOf x.above))⟩

/-- What there is to report for a node: a use that names no namespace, or a named type without a
target. -/
def complaints (t : Tree) (target : Option Target) (x : Site) : List Error :=
  match x.node with
  | .use u =>
    if t.lookup u.path = none then
      [{ cause := .notNamespace (String.intercalate "." u.path), span := u.mark.span }]
    else []
  | .type (.named m path _) =>
    if target = some .unknown then
      [{ cause := .notFound (String.intercalate "." path), span := m.span }]
    else []
  | _ => []

end Site

/-- A part of the walk that writes these notes, where no two are of one node and nothing was
recorded of the nodes before, and that reports these errors. -/
structure Writes (notes : List (Nat × Note)) (es : List Error) (r s : Resolver) : Prop where
  others : ∀ n, n ∉ notes.map Prod.fst → s.names.note n = r.names.note n
  each : (notes.map Prod.fst).Nodup → (∀ p ∈ notes, r.names.note p.1 = {}) →
    ∀ p ∈ notes, s.names.note p.1 = p.2
  errors : s.errors = r.errors ++ es

theorem Writes.refl (r : Resolver) : Writes [] [] r r :=
  ⟨fun _ _ => rfl, fun _ _ _ hp => absurd hp List.not_mem_nil, (List.append_nil _).symm⟩

theorem Writes.append {ps qs : List (Nat × Note)} {es es' : List Error} (h : Writes ps es r s)
    (h' : Writes qs es' s t) : Writes (ps ++ qs) (es ++ es') r t := by
  refine ⟨fun n hn => ?_, fun hnodup hblank p hp => ?_, by
    rw [h'.errors, h.errors, List.append_assoc]⟩
  · rw [List.map_append, List.mem_append, not_or] at hn
    rw [h'.others n hn.2, h.others n hn.1]
  · rw [List.map_append, List.nodup_append] at hnodup
    obtain ⟨hps, hqs, hdisjoint⟩ := hnodup
    rcases List.mem_append.mp hp with hp | hp
    · rw [h'.others _ fun hq => hdisjoint _ (List.mem_map_of_mem hp) _ hq rfl]
      exact h.each hps (fun q hq => hblank q (List.mem_append_left _ hq)) p hp
    · refine h'.each hqs (fun q hq => ?_) p hp
      rw [h.others _ fun hq' => hdisjoint _ hq' _ (List.mem_map_of_mem hq) rfl]
      exact hblank q (List.mem_append_right _ hq)

/-- The notes of nodes of a file. -/
def entries (v : View) (xs : List Site) : List (Nat × Note) := xs.map fun x => (x.id, x.note v)

/-- What there is to report for nodes of a file. -/
def objections (v : View) (xs : List Site) : List Error :=
  xs.flatMap fun x => x.complaints v.tree (x.note v).target

/-- A part of the walk over one file that is about these nodes. -/
structure Looks (v : View) (xs : List Site) (r s : Resolver) : Prop extends
    Writes (entries v xs) (objections v xs) r s where
  scopes : r.names.scopes.toList <+: s.names.scopes.toList
  imports : s.names.imports = r.names.imports

theorem Looks.refl (v : View) (r : Resolver) : Looks v [] r r := ⟨.refl r, List.prefix_rfl, rfl⟩

theorem Looks.append {xs ys : List Site} (h : Looks v xs r s) (h' : Looks v ys s t) :
    Looks v (xs ++ ys) r t := by
  refine ⟨?_, h.scopes.trans h'.scopes, h'.imports.trans h.imports⟩
  rw [entries, objections, List.map_append, List.flatMap_append]
  exact h.toWrites.append h'.toWrites

theorem Looks.shows {xs : List Site} (h : Looks v xs r s) (hr : v.Shows ctx r) : v.Shows ctx s := by
  refine ⟨hr.tree, hr.spaces, ?_⟩
  rw [hr.imports, Resolution.importsOf, Resolution.importsOf, h.imports]

/-! ### Nodes -/

variable {above : List Fragment}

theorem note_enter (parent : Option Nat) (r : Resolver) (x : Fragment) (n : Nat) :
    (r.enter parent x).names.note n =
      if n = x.id then ⟨some x.kind, parent.or r.names.parents[n]?,
      x.hasReceiver || r.names.members.contains n,
        r.names.targets[n]?⟩
      else r.names.note n := by
  by_cases hn : n = x.id
  · subst hn
    cases parent <;> cases hreceiver : x.hasReceiver <;>
      simp [Resolver.enter, Resolver.link, hreceiver, Resolution.note]
  · have hn' : x.id ≠ n := fun h => hn h.symm
    cases parent <;> cases hreceiver : x.hasReceiver <;>
      simp [Resolver.enter, Resolver.link, hreceiver, Resolution.note, Std.TreeMap.getElem?_insert,
        Std.TreeSet.contains_insert, hn, hn']

theorem note_openFor (ctx : FileContext) (scope : ScopeId) (r : Resolver) (x : Fragment) (n : Nat) :
    (r.openFor ctx scope x).names.note n = r.names.note n := by
  rw [Resolver.openFor]
  split <;> rfl

theorem scopes_enter (parent : Option Nat) (r : Resolver) (x : Fragment) :
    (r.enter parent x).names.scopes = r.names.scopes ∧
    (r.enter parent x).names.imports = r.names.imports ∧
      (r.enter parent x).errors = r.errors := by
  rw [Resolver.enter]
  split <;> exact ⟨rfl, rfl, rfl⟩

theorem scopes_openFor (ctx : FileContext) (scope : ScopeId) (r : Resolver) (x : Fragment) :
    r.names.scopes.toList <+: (r.openFor ctx scope x).names.scopes.toList ∧
      (r.openFor ctx scope x).names.imports = r.names.imports ∧
      (r.openFor ctx scope x).errors = r.errors := by
  rw [Resolver.openFor]
  split
  · exact ⟨⟨[_], (Array.toList_push ..).symm⟩, rfl, rfl⟩
  · exact ⟨List.prefix_rfl, rfl, rfl⟩

/-- The parts of a node stand below its type parameters. -/
theorem Encloses.openFor (hscope : Encloses r.names scope (paramsOf above)) (x : Fragment) :
    Encloses (r.openFor ctx scope x).names (r.innerScope scope x) (paramsOf (x :: above)) := by
  rw [paramsOf, List.flatMap_cons, Resolver.openFor, Resolver.innerScope]
  cases hkind : x.scopeKind? with
  | some kind => exact hscope.openScope _ rfl _
  | none =>
    have hparams : x.typeParams = [] := by
      cases x with
      | cls | protocol | function => cases hkind
      | _ => rfl
    rw [hparams]
    exact hscope

/-- The target of a node is entered, and what there is to report is reported. -/
structure Leaves (v : View) (x : Site) (r s : Resolver) : Prop where
  own : s.names.note x.id = (r.names.note x.id).aim (x.note v).target
  others : ∀ n, n ≠ x.id → s.names.note n = r.names.note n
  errors : s.errors = r.errors ++ x.complaints v.tree (x.note v).target
  scopes : s.names.scopes = r.names.scopes
  imports : s.names.imports = r.names.imports

theorem leaves_setTarget (hr : v.Shows ctx r) (hscope : Encloses r.names scope (paramsOf above))
    (m : Mark) (path : List String) (args : List (TypeExpr Mark)) :
    Leaves v ⟨.type (.named m path args), above⟩ r (r.setTarget ctx m path scope) := by
  have hnames : (r.setTarget ctx m path scope).names =
      { r.names with targets := r.names.targets.insert m.node (v.find (paramsOf above) path) } := by
    rw [Resolver.setTarget, hr.lookupType_eq hscope]
    split <;> rfl
  refine ⟨?_, fun n hn => ?_, ?_, by rw [hnames], by rw [hnames]⟩
  · rw [hnames]
    simp [Resolution.note, Note.aim, Site.note, Site.id, Fragment.id, Fragment.mark, TypeExpr.mark,
      Fragment.named?]
  · have hne : m.node ≠ n := fun h => hn h.symm
    rw [hnames]
    simp [Resolution.note, Std.TreeMap.getElem?_insert, hne]
  · rw [Resolver.setTarget, hr.lookupType_eq hscope]
    simp only [Site.complaints, Site.note, Fragment.named?, Option.map_some, Option.some_inj]
    split
    · rfl
    · exact (List.append_nil _).symm

theorem Leaves.refl {x : Site} (htarget : (x.note v).target = none)
    (h : x.complaints v.tree none = []) (r : Resolver) : Leaves v x r r := by
  refine ⟨?_, fun _ _ => rfl, ?_, rfl, rfl⟩
  · rw [htarget]
    rfl
  · rw [htarget, h, List.append_nil]

theorem leaves_use (htree : v.tree = ctx.tree) (scope : ScopeId) (r : Resolver) (u : Use Mark) :
    Leaves v ⟨.use u, above⟩ r (r.leave ctx scope (.use u)) := by
  refine ⟨?_, fun n _ => ?_, ?_, ?_, ?_⟩ <;> rw [Resolver.leave]
  · split <;> rfl
  · split <;> rfl
  · simp only [Site.complaints, htree]
    split <;> simp [*, Resolver.report]
  all_goals split <;> rfl

theorem leaves_leave (hr : v.Shows ctx r) (hscope : Encloses r.names scope (paramsOf above))
    (x : Fragment) :
    Leaves v ⟨x, above⟩ r (r.leave ctx scope x) := by
  cases x with
  | use u => exact leaves_use hr.tree scope r u
  | type t =>
    cases t with
    | named m path args => exact leaves_setTarget hr hscope m path args
    | primitive m p => exact .refl rfl rfl r
  | _ => exact .refl rfl rfl r

theorem Looks.node {x : Fragment} (hparts : Looks v (sitesOf (x :: above) x.parts)
      ((r.enter (above.head?.map Fragment.id) x).openFor ctx scope x) s)
    (hleave : Leaves v ⟨x, above⟩ s t) : Looks v (x.sites above) r t := by
  have hopened (n : Nat) :=
    (note_openFor ctx scope _ x n).trans (note_enter (above.head?.map Fragment.id) r x n)
  obtain ⟨hscopes, himports, herrors⟩ :=
    scopes_openFor ctx scope (r.enter (above.head?.map Fragment.id) x) x
  obtain ⟨henterScopes, henterImports, henterErrors⟩ :=
    scopes_enter (above.head?.map Fragment.id) r x
  have hentries : entries v (x.sites above) = entries v (sitesOf (x :: above) x.parts) ++
      [(x.id, Site.note v ⟨x, above⟩)] := by
    rw [entries, x.sites_eq, List.map_append]
    rfl
  refine ⟨⟨fun n hn => ?_, fun hnodup hblank p hp => ?_, ?_⟩, ?_, ?_⟩
  · rw [hentries, List.map_append, List.mem_append, not_or] at hn
    have hne : n ≠ x.id := fun h => hn.2 (by simp [h])
    rw [hleave.others n hne, hparts.others n hn.1, hopened, if_neg hne]
  · rw [hentries, List.map_append, List.nodup_append] at hnodup
    obtain ⟨hids, -, hdisjoint⟩ := hnodup
    have hne (q : Nat × Note) (hq : q ∈ entries v (sitesOf (x :: above) x.parts)) : q.1 ≠ x.id :=
      hdisjoint _ (List.mem_map_of_mem hq) _ List.mem_cons_self
    rw [hentries] at hp hblank
    rcases List.mem_append.mp hp with hp | hp
    · rw [hleave.others _ (hne p hp)]
      refine hparts.each hids (fun q hq => ?_) p hp
      rw [hopened, if_neg (hne q hq)]
      exact hblank q (List.mem_append_left _ hq)
    · cases List.mem_singleton.mp hp
      -- Nothing was recorded of the node before, and nothing is by the walk over its parts.
      have hold := hblank _ (List.mem_append_right _ hp)
      have hself := hparts.others x.id fun hmem => by
        obtain ⟨q, hq, hid⟩ := List.mem_map.mp hmem
        exact hne q hq hid
      have hparents : r.names.parents[x.id]? = none := congrArg Note.parent hold
      have hmembers : r.names.members.contains x.id = false := congrArg Note.receiver hold
      have htargets : r.names.targets[x.id]? = none := congrArg Note.target hold
      have hown : t.names.note x.id = (s.names.note x.id).aim (Site.note v ⟨x, above⟩).target :=
        hleave.own
      refine hown.trans ?_
      rw [hself, hopened, if_pos rfl, hparents, hmembers, htargets, Option.or_none, Bool.or_false]
      simp [Note.aim, Site.note, Site.parent?]
  · rw [hleave.errors, hparts.errors, herrors, henterErrors, objections, objections, x.sites_eq,
      List.flatMap_append, List.append_assoc, List.flatMap_singleton]
  · rw [hleave.scopes, ← henterScopes]
    exact hscopes.trans hparts.scopes
  · rw [hleave.imports, hparts.imports, himports, henterImports]

theorem Looks.walkAll {parent : Option Nat} {xs : List Fragment}
    (h : ∀ x ∈ xs, ∀ r, v.Shows ctx r → Encloses r.names scope (paramsOf above) →
      Looks v (x.sites above) r (r.walk ctx scope parent x))
    (hr : v.Shows ctx r) (hscope : Encloses r.names scope (paramsOf above)) :
    Looks v (sitesOf above xs) r (r.walkAll ctx scope parent xs) := by
  induction xs generalizing r with
  | nil => exact .refl v r
  | cons x xs ih =>
    obtain ⟨hx, hxs⟩ := List.forall_mem_cons.mp h
    have hfirst := hx r hr hscope
    exact hfirst.append (ih hxs (hfirst.shows hr) (hscope.mono hfirst.scopes))

theorem looks_walk (x : Fragment) (above : List Fragment) (scope : ScopeId) (r : Resolver)
    (hr : v.Shows ctx r) (hscope : Encloses r.names scope (paramsOf above)) :
    Looks v (x.sites above) r (r.walk ctx scope (above.head?.map Fragment.id) x) := by
  induction x using Fragment.parts_induction generalizing above scope r with
  | _ x ih =>
    rw [Resolver.walk_eq]
    obtain ⟨hscopes, himports, -⟩ :=
      scopes_openFor ctx scope (r.enter (above.head?.map Fragment.id) x) x
    obtain ⟨henterScopes, henterImports, -⟩ := scopes_enter (above.head?.map Fragment.id) r x
    have henter : Encloses (r.enter (above.head?.map Fragment.id) x).names scope (paramsOf above) :=
      hscope.mono (henterScopes ▸ List.prefix_rfl)
    have hshows : v.Shows ctx ((r.enter (above.head?.map Fragment.id) x).openFor ctx scope x) := by
      refine ⟨hr.tree, hr.spaces, ?_⟩
      rw [hr.imports, Resolution.importsOf, Resolution.importsOf, himports, henterImports]
    have hparts := Looks.walkAll (fun y hy r => ih y hy (x :: above) _ r) hshows (henter.openFor x)
    exact hparts.node (leaves_leave (hparts.shows hshows)
      (henter.mono (hscopes.trans hparts.scopes)) x)

/-! ### Files -/

theorem looks_uses (htree : v.tree = ctx.tree) (scope : ScopeId) (r : Resolver)
    (us : List (Use Mark)) :
    Looks v (sitesOf [] (us.map .use)) r (r.walkAll ctx scope none (us.map .use)) := by
  induction us generalizing r with
  | nil => exact .refl v r
  | cons u us ih =>
    have huse : Looks v (Fragment.sites [] (.use u)) r (r.walk ctx scope none (.use u)) := by
      rw [Resolver.walk_eq]
      have hparts :
        Looks v (sitesOf [.use u] []) _ ((r.enter none (.use u)).openFor ctx scope (.use u)) :=
        .refl v _
      exact hparts.node (leaves_use htree scope _ u)
    exact huse.append (ih _)

variable {tree : Tree}

theorem shows_enterFile (htree : tree.Rooted) {f : File Mark} {ns : NamespaceId}
    (hns : tree.lookup f.ns = some ns) (r : Resolver) :
    (View.ofFile tree f).Shows ⟨tree, f.id, ns⟩ (r.enterFile ⟨tree, f.id, ns⟩ f) := by
  refine ⟨rfl, (htree.chain_lookup hns).symm, ?_⟩
  have himports := (Resolver.uses_eq_walkAll ⟨tree, f.id, ns⟩ 0 r f.uses).1
  simp [Resolution.importsOf, Resolver.enterFile, Resolver.openScope, himports, View.ofFile]

theorem encloses_enterFile (ctx : FileContext) (r : Resolver) (f : File Mark) :
    Encloses (r.enterFile ctx f).names (r.uses ctx f.uses).2.nextScope [] := by
  let entry : LexicalScope :=
    { kind := .ns ctx.ns, parent := none, typeParams := [], file := ctx.file }
  have hentry :
      (r.enterFile ctx f).names.scopes[(r.uses ctx f.uses).2.nextScope]? = some entry := by
    simp [Resolver.enterFile, Resolver.openScope, Resolver.nextScope, entry]
  exact .top hentry rfl

theorem writes_file (htree : tree.Rooted) {f : File Mark} {ns : NamespaceId}
    (hns : tree.lookup f.ns = some ns) (r : Resolver) :
    Writes (entries (.ofFile tree f) f.sites) (objections (.ofFile tree f) f.sites) r
      (r.file ⟨tree, f.id, ns⟩ f) := by
  have huses :
      Looks (.ofFile tree f) (sitesOf [] (f.uses.map .use)) r
      (r.uses ⟨tree, f.id, ns⟩ f.uses).2 := by
    rw [(Resolver.uses_eq_walkAll ⟨tree, f.id, ns⟩ 0 r f.uses).2]
    exact looks_uses rfl 0 r f.uses
  have henter : Writes _ _ r (r.enterFile ⟨tree, f.id, ns⟩ f) :=
    ⟨huses.others, huses.each, huses.errors⟩
  have hdecls : Looks _ (sitesOf [] (f.decls.map .ofDecl)) _ _ :=
    .walkAll (fun x _ r => looks_walk x [] _ r) (shows_enterFile htree hns r)
      (encloses_enterFile ⟨tree, f.id, ns⟩ r f)
  rw [File.sites, File.fragments, sitesOf_append, entries, objections, List.map_append,
    List.flatMap_append, Resolver.file_eq_walkAll]
  exact henter.append hdecls.toWrites

/-- All nodes of all files are noted, and what they call for is reported. -/
theorem writes_resolve (project : String) (dependencies : List String) (files : List (File Mark)) :
    let tree := (Registry.ofFiles project dependencies files).tree
    Writes (files.flatMap fun f => entries (.ofFile tree f) f.sites)
      (files.flatMap fun f => objections (.ofFile tree f) f.sites) {} (Resolver.resolve tree) := by
  intro tree
  obtain ⟨htree, hseated⟩ := Registry.seated_ofFiles project dependencies files
  have hentries (es : List FileEntry) (hes : ∀ entry ∈ es, tree.lookup entry.source.ns =
      some entry.ns)
      (r : Resolver) :
      Writes ((es.map (·.source)).flatMap fun f => entries (.ofFile tree f) f.sites)
        ((es.map (·.source)).flatMap fun f => objections (.ofFile tree f) f.sites) r
        (es.foldl (fun r entry => r.file ⟨tree, entry.source.id, entry.ns⟩ entry.source) r) := by
    induction es generalizing r with
    | nil => exact .refl r
    | cons entry es ih =>
      obtain ⟨hentry, hes⟩ := List.forall_mem_cons.mp hes
      exact (writes_file htree hentry r).append (ih hes _)
  have hresolve := hentries tree.files.toList hseated {}
  rwa [Registry.sources_ofFiles, Array.foldl_toList] at hresolve

section

variable (project : String) (dependencies : List String) {files : List (File Mark)}

theorem notes_resolve (hids : ((files.flatMap File.sites).map Site.id).Nodup) :
    let tree := (Registry.ofFiles project dependencies files).tree
    (∀ f ∈ files, ∀ x ∈ f.sites,
        (Resolver.resolve tree).names.note x.id = x.note (.ofFile tree f)) ∧
      ∀ n, n ∉ (files.flatMap File.sites).map Site.id →
      (Resolver.resolve tree).names.note n = {} := by
  intro tree
  have hwrites : Writes _ _ _ (Resolver.resolve tree) := writes_resolve project dependencies files
  have hkeys : (files.flatMap fun f => entries (.ofFile tree f) f.sites).map Prod.fst =
      (files.flatMap File.sites).map Site.id := by
    simp [List.map_flatMap, entries, Function.comp_def]
  refine ⟨fun f hf x hx => ?_, fun n hn => hwrites.others n (hkeys ▸ hn)⟩
  exact hwrites.each (hkeys ▸ hids) (fun _ _ => rfl) (x.id, x.note (.ofFile tree f))
    (List.mem_flatMap.mpr ⟨f, hf, List.mem_map_of_mem hx⟩)

/-- What is reported is what the targets call for. -/
theorem errors_resolve (hids : ((files.flatMap File.sites).map Site.id).Nodup) :
    let tree := (Registry.ofFiles project dependencies files).tree
    (Resolver.resolve tree).errors = (files.flatMap File.sites).flatMap fun x =>
      x.complaints tree (Resolver.resolve tree).names.targets[x.id]? := by
  intro tree
  have hwrites : Writes _ _ _ (Resolver.resolve tree) := writes_resolve project dependencies files
  have hnotes := (notes_resolve project dependencies hids).1
  rw [hwrites.errors, List.flatMap_assoc]
  refine List.flatMap_congr fun f hf => List.flatMap_congr fun x hx => ?_
  rw [← hnotes f hf x hx]
  rfl

end

end ObjectLang.Names
