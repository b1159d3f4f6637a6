import ObjectLang.Proofs.NameRecords

/-! # Parent links

Name resolution records the kind of each node and the node right around it.  Where no two nodes
share an id, these links are the source trees: no chain of links runs for ever, and the nearest
function up the chain is the innermost function around a node.
-/

namespace ObjectLang.Names

open Source Syntax Scope

namespace Fragment

def isFunction : Fragment → Bool
  | function _ _ => true
  | _ => false

/-- Functions and fields, which stand right below structures or below nothing. -/
def isMember : Fragment → Bool
  | function _ _ | field _ => true
  | _ => false

def isStructure : Fragment → Bool
  | cls _ | protocol _ => true
  | _ => false

theorem kind_eq_function_iff (x : Fragment) : x.kind = .function ↔ x.isFunction = true := by
  cases x <;> simp [kind, isFunction]

theorem isStructure_of_mem_parts {x y : Fragment} (h : y ∈ x.parts) :
    y.isStructure = false ∧ (y.isMember = true → x.isStructure = true) := by
  cases y with
  | cls c | protocol c =>
    cases x with
    | use u | enum e => cases h
    | stmt x | expr x | type x => cases x <;> simp [parts] at h
    | _ => simp [parts] at h
  | function kind f | field f =>
    refine ⟨rfl, fun _ => ?_⟩
    cases x with
    | cls c | protocol c => rfl
    | use u | enum e => cases h
    | stmt x | expr x | type x => cases x <;> simp [parts] at h
    | _ => simp [parts] at h
  | _ => exact ⟨rfl, by simp [isMember]⟩

theorem around_mem_sites {x : Fragment} {above : List Fragment} {z : Site}
    (hz : z ∈ x.sites above) :
    z = ⟨x, above⟩ ∨ ∃ a rest, z.above = a :: rest ∧ z.node ∈ a.parts ∧
    ⟨a, rest⟩ ∈ x.sites above := by
  induction x using parts_induction generalizing above with
  | _ x ih =>
    have hsites := x.sites_eq above
    rw [hsites] at hz
    rcases List.mem_append.mp hz with hz | hz
    · obtain ⟨y, hy, hz⟩ := List.mem_flatMap.mp hz
      refine .inr ?_
      rcases ih y hy hz with rfl | ⟨a, rest, habove, ha, hmem⟩
      · exact ⟨x, above, rfl, hy, mem_sites above x⟩
      · exact ⟨a, rest, habove, ha, sites_subset hy hmem⟩
    · exact .inl (List.mem_singleton.mp hz)

end Fragment

/-- The innermost function that properly contains the node. -/
def Site.function? (x : Site) : Option Fragment := x.above.find? Fragment.isFunction

/-! ### Whole trees -/

/-- All nodes of some trees, no two of one id. -/
structure Forest (sites : List Site) : Prop where
  distinct : (sites.map Site.id).Nodup
  closed : ∀ {x a rest}, ⟨x, a :: rest⟩ ∈ sites → x ∈ a.parts ∧ ⟨a, rest⟩ ∈ sites

theorem forest_files {files : List (File Mark)}
    (h : ((files.flatMap File.sites).map Site.id).Nodup) :
    Forest (files.flatMap File.sites) := by
  refine ⟨h, fun {x a rest} hx => ?_⟩
  obtain ⟨f, hf, hx⟩ := List.mem_flatMap.mp hx
  obtain ⟨y, hy, hx⟩ := List.mem_flatMap.mp hx
  rcases Fragment.around_mem_sites hx with heq | ⟨b, rest', habove, hb, hmem⟩
  · cases heq
  · cases habove
    exact ⟨hb, List.mem_flatMap.mpr ⟨f, hf, List.mem_flatMap.mpr ⟨y, hy, hmem⟩⟩⟩

namespace Forest

variable {sites : List Site} {x : Fragment} {above : List Fragment}

/-- A node around another one stands higher. -/
theorem mem_of_mem_above (h : Forest sites) {a : Fragment} (hx : ⟨x, above⟩ ∈ sites)
    (ha : a ∈ above) :
    ∃ rest, ⟨a, rest⟩ ∈ sites ∧ rest.length < above.length := by
  induction above generalizing x with
  | nil => cases ha
  | cons b rest ih =>
    have hb := (h.closed hx).2
    rcases List.mem_cons.mp ha with rfl | ha
    · exact ⟨rest, hb, Nat.lt_succ_self _⟩
    · obtain ⟨rest', hrest, hlt⟩ := ih hb ha
      exact ⟨rest', hrest, Nat.lt_succ_of_lt hlt⟩

theorem nodup_way (h : Forest sites) (hx : ⟨x, above⟩ ∈ sites) :
    ((x :: above).map Fragment.id).Nodup := by
  induction above generalizing x with
  | nil => simp
  | cons a rest ih =>
    rw [List.map_cons, List.nodup_cons]
    refine ⟨fun hmem => ?_, ih (h.closed hx).2⟩
    obtain ⟨b, hb, hid⟩ := List.mem_map.mp hmem
    obtain ⟨rest', hb', hlt⟩ := h.mem_of_mem_above hx hb
    cases List.inj_on_of_nodup_map h.distinct hb' hx hid
    exact Nat.lt_irrefl _ hlt

theorem above_member (h : Forest sites) (hx : ⟨x, above⟩ ∈ sites) (hmember : x.isMember = true) :
    ∀ a ∈ above, a.isStructure = true := by
  cases above with
  | nil => exact fun a ha => absurd ha List.not_mem_nil
  | cons a rest =>
    obtain ⟨hpart, ha⟩ := h.closed hx
    have hstructure := (Fragment.isStructure_of_mem_parts hpart).2 hmember
    cases rest with
    | nil => simpa using hstructure
    | cons b rest =>
      rw [(Fragment.isStructure_of_mem_parts (h.closed ha).1).1] at hstructure
      cases hstructure

theorem function?_eq_none (h : Forest sites) (hx : ⟨x, above⟩ ∈ sites) {f : Syntax.Field Mark}
    (hf : .field f ∈ above) : above.find? Fragment.isFunction = none := by
  have hstructure {a : Fragment} (ha : a.isStructure = true) : ¬a.isFunction = true := by
    cases a with
    | function kind f => cases ha
    | _ => simp [Fragment.isFunction]
  rw [List.find?_eq_none]
  induction above generalizing x with
  | nil => cases hf
  | cons a rest ih =>
    have ha := (h.closed hx).2
    rw [List.forall_mem_cons]
    rcases List.mem_cons.mp hf with rfl | hfield
    · exact ⟨by simp [Fragment.isFunction], fun b hb => hstructure (h.above_member ha rfl b hb)⟩
    · refine ⟨fun hfunction => ?_, ih ha hfield⟩
      have hmember : a.isMember = true := by
        cases a with
        | function kind f => rfl
        | _ => cases hfunction
      cases h.above_member ha hmember _ hfield

end Forest

/-- The names hold what is to be recorded of the nodes of a forest, and nothing else. -/
structure Describes (names : Resolution) (sites : List Site) : Prop
    extends forest : Forest sites where
  kinds : ∀ x ∈ sites, names.kinds[x.id]? = some x.node.kind
  parents : ∀ x ∈ sites, names.parents[x.id]? = x.parent?
  members : ∀ x ∈ sites, names.members.contains x.id = x.node.hasReceiver
  others : ∀ n, n ∉ sites.map Site.id → names.note n = {}

namespace Describes

variable {names : Resolution} {sites : List Site} {x : Fragment} {above : List Fragment}

section

variable (h : Describes names sites)

include h

theorem kind_eq_some_iff {n : Nat} {k : NodeKind} :
    names.kinds[n]? = some k ↔ ∃ x ∈ sites, x.id = n ∧ x.node.kind = k := by
  refine ⟨fun hk => ?_, fun ⟨x, hx, hid, hkind⟩ => hid ▸ hkind ▸ h.kinds x hx⟩
  by_cases hn : n ∈ sites.map Site.id
  · obtain ⟨x, hx, rfl⟩ := List.mem_map.mp hn
    exact ⟨x, hx, rfl, Option.some_inj.mp ((h.kinds x hx).symm.trans hk)⟩
  · cases hk.symm.trans (congrArg Note.kind (h.others n hn))

theorem parent_eq_some_iff {n p : Nat} :
    names.parents[n]? = some p ↔ ∃ x ∈ sites, x.id = n ∧ x.parent? = some p := by
  refine ⟨fun hp => ?_, fun ⟨x, hx, hid, hparent⟩ => hid ▸ (h.parents x hx).trans hparent⟩
  by_cases hn : n ∈ sites.map Site.id
  · obtain ⟨x, hx, rfl⟩ := List.mem_map.mp hn
    exact ⟨x, hx, rfl, (h.parents x hx).symm.trans hp⟩
  · cases hp.symm.trans (congrArg Note.parent (h.others n hn))

/-- The node up a link, as a node of the forest. -/
theorem exists_parent {n p : Nat} (hp : names.parents[n]? = some p) :
    ∃ x a rest, ⟨x, a :: rest⟩ ∈ sites ∧ x.id = n ∧ a.id = p ∧ ⟨a, rest⟩ ∈ sites := by
  obtain ⟨⟨x, above⟩, hx, rfl, hparent⟩ := h.parent_eq_some_iff.mp hp
  cases above with
  | nil => cases hparent
  | cons a rest => exact ⟨x, a, rest, hx, rfl, Option.some_inj.mp hparent, (h.closed hx).2⟩

/-- No chain of links runs for ever: its length is the depth of the node. -/
theorem wellFounded_parents :
    WellFounded fun p n : Nat => names.parents[n]? = some p := by
  have hsite (above : List Fragment) (x : Fragment) (hx : ⟨x, above⟩ ∈ sites) :
      Acc (fun p n : Nat => names.parents[n]? = some p) x.id := by
    induction above generalizing x with
    | nil =>
      refine ⟨_, fun p hp => ?_⟩
      cases (h.parents _ hx).symm.trans hp
    | cons a rest ih =>
      refine ⟨_, fun p hp => ?_⟩
      have hpa : some a.id = some p := (h.parents _ hx).symm.trans hp
      exact Option.some_inj.mp hpa ▸ ih a (h.closed hx).2
  refine ⟨fun n => ⟨n, fun p hp => ?_⟩⟩
  obtain ⟨x, a, rest, -, -, rfl, ha⟩ := h.exists_parent hp
  exact hsite rest a ha

/-! ### The function around a node -/

theorem isSome_parent_of_mem (hx : ⟨x, above⟩ ∈ sites) {n : Nat}
    (hn : n ∈ ((x :: above).map Fragment.id).dropLast) : names.parents[n]?.isSome := by
  induction above generalizing x with
  | nil => cases hn
  | cons a rest ih =>
    rw [List.map_cons, List.map_cons, List.dropLast_cons_cons] at hn
    rcases List.mem_cons.mp hn with rfl | hn
    · exact Option.isSome_iff_exists.mpr ⟨a.id, h.parents _ hx⟩
    · exact ih (h.closed hx).2 hn

/-- There are as many links as steps on a way up, for no node is met twice. -/
theorem length_above_le (hx : ⟨x, above⟩ ∈ sites) :
    above.length ≤ names.parents.size := by
  have hnodup := (List.dropLast_sublist _).nodup (h.nodup_way hx)
  have hsub : ((x :: above).map Fragment.id).dropLast ⊆ names.parents.keys := fun n hn => by
    rw [Std.TreeMap.mem_keys, Std.TreeMap.mem_iff_isSome_getElem?]
    exact h.isSome_parent_of_mem hx hn
  have hle := hnodup.length_le_of_subset hsub
  rwa [Std.TreeMap.length_keys, List.length_dropLast, List.length_map, List.length_cons,
    Nat.add_sub_cancel] at hle

theorem functionAbove_eq (hx : ⟨x, above⟩ ∈ sites) {bound : Nat}
    (hbound : above.length < bound) :
    names.functionAbove bound x.id = (above.find? Fragment.isFunction).map Fragment.id := by
  induction above generalizing x bound with
  | nil =>
    cases bound with
    | zero => cases hbound
    | succ bound =>
      have hparent : names.parents[x.id]? = none := h.parents _ hx
      simp [Resolution.functionAbove, hparent]
  | cons a rest ih =>
    cases bound with
    | zero => cases hbound
    | succ bound =>
      have ha := (h.closed hx).2
      have hparent : names.parents[x.id]? = some a.id := h.parents _ hx
      have hkind : names.kinds[a.id]? = some a.kind := h.kinds _ ha
      have hrest := ih ha (Nat.lt_of_succ_lt_succ hbound)
      rw [Resolution.functionAbove, hparent]
      simp only [hkind, Option.some_inj, a.kind_eq_function_iff, List.find?_cons]
      split <;> simp [*]

theorem enclosingFunction_eq {x : Site} (hx : x ∈ sites) :
    names.enclosingFunction x.id = x.function?.map Fragment.id :=
  h.functionAbove_eq hx (Nat.lt_succ_of_le (h.length_above_le hx))

/-- The way up is followed to its end: the number of steps that are allowed is no limit. -/
theorem enclosingFunction_rec (n : Nat) :
    names.enclosingFunction n = names.parents[n]?.bind fun p =>
      if names.kinds[p]? = some .function then some p else names.enclosingFunction p := by
  cases hp : names.parents[n]? with
  | none => simp [Resolution.enclosingFunction, Resolution.functionAbove, hp]
  | some p =>
    obtain ⟨x, a, rest, hx, rfl, rfl, ha⟩ := h.exists_parent hp
    have hkind : names.kinds[a.id]? = some a.kind := h.kinds _ ha
    have hx' : names.enclosingFunction x.id = _ := h.enclosingFunction_eq hx
    have ha' : names.enclosingFunction a.id = _ := h.enclosingFunction_eq ha
    rw [hx', Option.bind_some, hkind, ha']
    simp only [Option.some_inj, a.kind_eq_function_iff, Site.function?, List.find?_cons]
    split <;> simp [*]

theorem hasReceiver_iff {x : Site} (hx : x ∈ sites) :
    names.hasReceiver x.id = true ↔
      ∃ kind f, x.function? = some (.function kind f) ∧
      kind ∈ [.method, .init, .requirement, .extension] := by
  rw [Resolution.hasReceiver, h.enclosingFunction_eq hx]
  cases hfunction : x.function? with
  | none => simp
  | some g =>
    obtain ⟨rest, hg, -⟩ := h.mem_of_mem_above hx (List.mem_of_find?_eq_some hfunction)
    have hmember : names.members.contains g.id = g.hasReceiver := h.members _ hg
    have hisFunction : g.isFunction = true := List.find?_some hfunction
    simp only [Option.map_some, hmember]
    cases g with
    | function kind f => cases kind <;> simp [Fragment.hasReceiver]
    | _ => cases hisFunction

end

end Describes

theorem describes_resolve (project : String) (dependencies : List String) {files : List (File Mark)}
    (hids : ((files.flatMap File.sites).map Site.id).Nodup) :
    Describes (Resolver.resolve (Registry.ofFiles project dependencies files).tree).names
      (files.flatMap File.sites) := by
  obtain ⟨hnotes, hothers⟩ := notes_resolve project dependencies hids
  have hsites {α : Type} (part : Note → α) (x) (hx : x ∈ files.flatMap File.sites) : ∃ v,
      part ((Resolver.resolve (Registry.ofFiles project dependencies files).tree).names.note x.id) =
        part (x.note v) := by
    obtain ⟨f, hf, hx⟩ := List.mem_flatMap.mp hx
    exact ⟨_, congrArg part (hnotes f hf x hx)⟩
  refine ⟨forest_files hids, fun x hx => ?_, fun x hx => ?_, fun x hx => ?_, hothers⟩
  · obtain ⟨v, hv⟩ := hsites Note.kind x hx
    exact hv
  · obtain ⟨v, hv⟩ := hsites Note.parent x hx
    exact hv
  · obtain ⟨v, hv⟩ := hsites Note.receiver x hx
    exact hv

end ObjectLang.Names

namespace ObjectLang

open Syntax Scope Names

/-- Kinds and parents are recorded of the nodes of the files and of nothing else; so a way up ends,
and the first function on it is the innermost one around the node. -/
theorem parent_links_describe_files (project : String) (dependencies : List String)
    (files : List (File Mark)) (hids : ((files.flatMap File.sites).map Site.id).Nodup) :
    let sites := files.flatMap File.sites
    let names := (Resolver.resolve (Registry.ofFiles project dependencies files).tree).names
    (∀ n k, names.kinds[n]? = some k ↔ ∃ x ∈ sites, x.id = n ∧ x.node.kind = k) ∧
      (∀ n p, names.parents[n]? = some p ↔ ∃ x ∈ sites, x.id = n ∧ x.parent? = some p) ∧
      (WellFounded fun p n : Nat => names.parents[n]? = some p) ∧
      (∀ n, names.enclosingFunction n = names.parents[n]?.bind fun p =>
        if names.kinds[p]? = some .function then some p else names.enclosingFunction p) ∧
      (∀ x ∈ sites, names.enclosingFunction x.id = x.function?.map Fragment.id ∧
        ((∃ f, .field f ∈ x.above) → names.enclosingFunction x.id = none) ∧
        (names.hasReceiver x.id = true ↔ ∃ kind f, x.function? = some (.function kind f) ∧
          kind ∈ [.method, .init, .requirement, .extension])) ∧
      ∀ n, n ∉ sites.map Site.id → names.enclosingFunction n = none ∧
      names.hasReceiver n = false := by
  intro sites names
  have h : Describes names sites := describes_resolve project dependencies hids
  refine ⟨fun _ _ => h.kind_eq_some_iff, fun _ _ => h.parent_eq_some_iff, h.wellFounded_parents,
    h.enclosingFunction_rec, fun x hx => ⟨h.enclosingFunction_eq hx, ?_, h.hasReceiver_iff hx⟩,
    fun n hn => ?_⟩
  · rintro ⟨f, hf⟩
    rw [h.enclosingFunction_eq hx, Site.function?, h.function?_eq_none hx hf, Option.map_none]
  · have hparent : names.parents[n]? = none := congrArg Note.parent (h.others n hn)
    have hnone : names.enclosingFunction n = none := by
      rw [h.enclosingFunction_rec, hparent, Option.bind_none]
    exact ⟨hnone, by rw [Resolution.hasReceiver, hnone]⟩

/-- A field with a default, and a method that reads the field. -/
def counter : List (File Hint) := [{
  id := 0
  decls := [
    .cls {
      mark := none, name := "Counter"
      fields := [
        { mark := none, name := "n", type := .primitive none .i64, default := some (.int none 1) }]
      methods := [{
        mark := none, name := "count", returnType := some (.primitive none .i64)
        body := some (.mk none [] (some (.field none (.self none) "n"))) }] }] }]

theorem parent_links_counter :
    let files := (numberFiles counter).1
    let names := (Resolver.resolve (Registry.ofFiles "app" [] files).tree).names
    ((files.flatMap File.sites).map Site.id).Nodup ∧
      (∃ n, names.kinds[n]? = some .expr ∧ names.enclosingFunction n = none) ∧
      ∃ n f, names.kinds[n]? = some .expr ∧ names.enclosingFunction n = some f ∧
      names.hasReceiver n = true := by
  intro files names
  have hids := nodup_numberFiles counter
  obtain ⟨hkinds, -, -, -, hsites, -⟩ := parent_links_describe_files "app" [] files hids
  have hdefault :
      ((files.flatMap File.sites).any fun x => x.node.kind == .expr && x.function?.isNone) =
      true := by
    decide +kernel
  have hself : ((files.flatMap File.sites).any fun x => x.node.kind == .expr &&
      x.function?.any fun f => f.hasReceiver) = true := by
    decide +kernel
  simp only [List.any_eq_true, Bool.and_eq_true, beq_iff_eq, Option.isNone_iff_eq_none,
    Option.any_eq_true] at hdefault hself
  obtain ⟨x, hx, hkind, hnone⟩ := hdefault
  obtain ⟨y, hy, hkind', g, hg, hreceiver⟩ := hself
  refine ⟨hids, ⟨x.id, (hkinds _ _).2 ⟨x, hx, rfl, hkind⟩, ?_⟩, y.id, g.id,
    (hkinds _ _).2 ⟨y, hy, rfl, hkind'⟩, ?_, ?_⟩
  · rw [(hsites x hx).1, hnone, Option.map_none]
  · rw [(hsites y hy).1, hg, Option.map_some]
  · refine (hsites y hy).2.2.2 ?_
    cases g with
    | function kind f => exact ⟨kind, f, hg, by cases kind <;> simp_all [Fragment.hasReceiver]⟩
    | _ => cases hreceiver

end ObjectLang
