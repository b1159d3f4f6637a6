import ObjectLang.Proofs.Agreement
import ObjectLang.Proofs.NameRecords
import ObjectLang.Proofs.ProperSources

/-! # Names that mean something

If no name was reported, every name in the signature of a method means something where it stands.
-/

namespace ObjectLang.Names

open Source Syntax Scope

theorem View.means_find {v : View} {params path : List String} (h : v.find params path ≠ .unknown) :
    (v.find params path).Means params := by
  have hfound (s : Option StructureId) (h : Target.ofFound s ≠ .unknown) :
      (Target.ofFound s).Means params := by
    cases s with
    | none => exact absurd rfl h
    | some s => trivial
  revert h
  rw [find]
  split
  · exact fun h => absurd rfl h
  · split
    · next hparam => exact fun _ => hparam
    · exact hfound _
  · exact hfound _

/-- Every named type among the nodes means something where it stands. -/
def Meaningful (names : Resolution) (xs : List Site) : Prop :=
  ∀ x ∈ xs, ∀ path, x.node.named? = some path → (names.target x.id).Means (paramsOf x.above)

variable {names : Resolution}

mutual

theorem Meaningful.type {above : List Fragment} {t : TypeExpr Mark}
    (h : Meaningful names (Fragment.sites above (.type t))) : names.Means (paramsOf above) t := by
  match t with
  | .primitive m p => trivial
  | .named m path args =>
    rw [Resolution.Means]
    refine ⟨h _ (Fragment.mem_sites above _) path rfl, ?_⟩
    have hargs (t : TypeExpr Mark) (ht : t ∈ args) :
        Meaningful names (Fragment.sites (.type (.named m path args) :: above) (.type t)) :=
        fun x hx =>
      h x (Fragment.sites_subset (List.mem_map_of_mem ht) hx)
    have hmeans := Meaningful.types hargs
    exact hmeans

theorem Meaningful.types {above : List Fragment} {ts : List (TypeExpr Mark)}
    (h : ∀ t ∈ ts, Meaningful names (Fragment.sites above (.type t))) :
    names.MeansAll (paramsOf above) ts := by
  match ts with
  | [] => trivial
  | t :: ts =>
    obtain ⟨ht, hts⟩ := List.forall_mem_cons.mp h
    exact ⟨Meaningful.type ht, Meaningful.types hts⟩

end

/-- All methods of the class have signatures that mean something. -/
def MeansMethods (names : Resolution) (c : Class Mark) : Prop :=
  ∀ m ∈ c.methods, names.MeansSignature c.typeParams m

theorem Meaningful.methods {c : Class Mark} (h : Meaningful names (Fragment.sites [] (.cls c))) :
    MeansMethods names c := by
  intro m hm
  have hmethod : Fragment.function .method m ∈ (Fragment.cls c).parts := by
    simp [Fragment.parts, hm]
  have hparams : paramsOf [.function .method m, .cls c] = m.typeParams ++ c.typeParams := by
    simp [paramsOf, Fragment.typeParams]
  have hbelow : Fragment.sites [.cls c] (.function .method m) ⊆ Fragment.sites [] (.cls c) :=
    Fragment.sites_subset hmethod
  refine ⟨fun p hp => ?_, fun t ht => ?_⟩
  · have hparam : Fragment.param p ∈ (Fragment.function .method m).parts := by
      simp [Fragment.parts, hp]
    have htype : Fragment.type p.type ∈ (Fragment.param p).parts := List.mem_cons_self
    have hmeans :
        Meaningful names (Fragment.sites [.param p, .function .method m, .cls c] (.type p.type)) :=
      fun x hx => h x (hbelow (Fragment.sites_subset hparam (Fragment.sites_subset htype hx)))
    exact hparams ▸ hmeans.type
  · have hreturn : Fragment.type t ∈ (Fragment.function .method m).parts := by
      simp [Fragment.parts, ht]
    have hmeans : Meaningful names (Fragment.sites [.function .method m, .cls c] (.type t)) :=
      fun x hx => h x (hbelow (Fragment.sites_subset hreturn hx))
    exact hparams ▸ hmeans.type

theorem meaningful_resolve (project : String) (dependencies : List String)
    {files : List (File Mark)} (hids : ((files.flatMap File.sites).map Site.id).Nodup)
    (h : (Resolver.resolve (Registry.ofFiles project dependencies files).tree).errors = []) :
    ∀ f ∈ files, Meaningful (Resolver.resolve
      (Registry.ofFiles project dependencies files).tree).names f.sites := by
  intro f hf x hx path hpath
  have hnote := (notes_resolve project dependencies hids).1 f hf x hx
  have htarget := congrArg Note.target hnote
  rw [errors_resolve project dependencies hids, List.flatMap_eq_nil_iff] at h
  have hsilent := h x (List.mem_flatMap.mpr ⟨f, hf, hx⟩)
  obtain ⟨node, above⟩ := x
  cases node with
  | type t =>
    cases t with
    | primitive m p => cases hpath
    | named m path' args =>
      change (Resolver.resolve _).names.targets[_]? = some _ at htarget
      rw [htarget, Site.complaints] at hsilent
      rw [Resolution.target, htarget]
      refine View.means_find fun hunknown => ?_
      simp [hunknown] at hsilent
  | _ => cases hpath

end ObjectLang.Names

namespace ObjectLang

open Syntax Scope Names Check

/-- If no name was reported, every name in the signature of a method means something. -/
theorem named_sources (name : String) (dependencies : List String) (files : List (File Hint))
    (h : (Project.ofWritten name dependencies files).resolve.nameErrors = []) :
    (Project.ofWritten name dependencies files).resolve.sources.Named := by
  have hmeans := meaningful_resolve name dependencies (nodup_numberFiles files) h
  have hdecls (f) (hf : f ∈ (numberFiles files).1) (d) (hd : d ∈ f.decls) :
      d.Holds (MeansMethods (Project.ofWritten name dependencies files).resolve.sources.names) := by
    cases d with
    | cls c =>
      refine Meaningful.methods fun x hx => hmeans f hf x ?_
      exact List.mem_flatMap.mpr ⟨.cls c, List.mem_append_right _ (List.mem_map_of_mem hd), hx⟩
    | _ => trivial
  have hlisted :=
    Registry.listed_ofFiles name dependencies (fun m hm => absurd hm List.not_mem_nil) hdecls
  have hfiled := (Registry.ordered_ofFiles name dependencies (numberFiles files).1).filed
  exact fun _ _ _ _ hdecl hf => hlisted.classes hdecl _ (hlisted.mem_methods hfiled hdecl hf)

end ObjectLang
