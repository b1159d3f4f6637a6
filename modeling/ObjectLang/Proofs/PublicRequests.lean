import Mathlib.Logic.Relation
import ObjectLang.Proofs.CheckSoundness
import ObjectLang.Proofs.ProperSources
import ObjectLang.Proofs.Termination

/-! # Requests from outside are answered

Whatever is asked for, one request after the other: each of them is answered if there is enough
fuel, and in between no class waits, no body is in the queue and the records are in order.
-/

namespace ObjectLang.Check

open Filter
open Source Syntax Scope Names Diagnostic Checked

/-- What can be asked for from outside. -/
inductive Request where
  | cls (struct : StructureId) (typeArgs : List Ty)
  | function (key : FunctionKey)
  | all

namespace Request

/-- The request speaks of types of the program only. -/
def Within (p : Program) : Request → Prop
  | cls _ typeArgs => ∀ ty ∈ typeArgs, ty.Within p
  | function key => KeyWithin p key
  | all => True

/-- Serves a request.  The result is the instance that was asked for. -/
def run (src : Sources) (fuel : Nat) : Request → Checking (Option Nat)
  | cls struct typeArgs => checkClass src fuel struct typeArgs
  | function key => checkFunctionInstance src fuel key
  | all => do
    checkAll src fuel
    return none

end Request

/-- A request leads from one state to the other. -/
def Served (src : Sources) (s t : State) : Prop :=
  ∃ (request : Request) (fuel : Nat) (r : Option Nat),
    request.Within s.program ∧ request.run src fuel s = some (r, t)

/-- The states between requests. -/
def Reached (src : Sources) : State → Prop := Relation.ReflTransGen (Served src) {}

/-- Nothing is left to be done. -/
structure Settled (src : Sources) (s : State) : Prop where
  orderly : Orderly src ⟨True, False⟩ {} s
  judged : Judged src ⟨True, False⟩ s
  recorded : Recorded src s
  bodies : s.bodies = []
  depth : s.depth = 0

variable {src : Sources} {n : Nat} {s t : State}

theorem Settled.waiting (hs : Settled src s) : s.waiting = [] :=
  (hs.orderly.agenda.ordered trivial).eq_nil

theorem settled_start : Settled src {} where
  orderly := orderly_start
  judged := judged_start
  recorded := by
    refine ⟨fun {key c} => ⟨nofun, nofun⟩, fun {key f} => ⟨nofun, nofun⟩, nofun, nofun,
      List.nodup_nil, nofun, nofun, nofun, nofun, fun protocol struct => ?_, nofun⟩
    simp [State.implementorsOf]
  bodies := rfl
  depth := rfl

/-- What a request asks for first, before the classes and bodies that it leads to. -/
def Request.action (src : Sources) (fuel : Nat) : Request → Checking (Option Nat)
  | cls struct typeArgs =>
    requestClass src fuel struct typeArgs (src.tree.structureAt struct).decl.mark.span
  | function key =>
    requestFunction src (requestClass src fuel) key (src.tree.functionAt key.symbol).decl.mark.span
  | all => do
    src.tree.functions.toList.forM checkModifiers
    (List.range src.tree.structures.size).forM (checkStructure src fuel)
    (List.range src.tree.functions.size).forM (checkSymbol src fuel)
    return none

theorem Request.run_eq_serve (request : Request) (fuel : Nat) :
    request.run src fuel = serve src fuel (request.action src fuel) := by
  cases request with
  | cls struct typeArgs => rfl
  | function key => rfl
  | all => simp [run, action, checkAll, serve]

section

variable (hreg : src.Regular)

include hreg

theorem orderly_action {closed : Prop} {request : Request} {fuel : Nat} {r : Option Nat}
    (hs : Orderly src ⟨closed, False⟩ {} s) (hrequest : closed → request.Within s.program)
    (h : request.action src fuel s = some (r, t)) :
    Orderly src ⟨closed, False⟩ {} t ∧ Advances {} s t := by
  cases request with
  | cls struct typeArgs =>
    obtain ⟨ht, hst, -⟩ := serves_requestClass hreg fuel hs hrequest False.elim h
    exact ⟨ht, hst⟩
  | function key =>
    obtain ⟨ht, hst, -⟩ := orderly_requestFunction (serves_requestClass hreg fuel) hs hrequest
      (fun _ => .inl rfl) False.elim h
    exact ⟨ht, hst⟩
  | all =>
    have hsteady : Steady src ⟨closed, False⟩ (Request.all.action src fuel) :=
      .bind (.forM fun f _ => .of_quiet (Quiet.checkModifiers f)) fun _ =>
        .bind (.forM fun id _ => steady_checkStructure hreg id) fun _ =>
          .bind (.forM fun symbol hsymbol => steady_checkSymbol hreg (List.mem_range.mp hsymbol))
              fun _ =>
            .pure none
    exact hsteady hs h

omit hreg in
theorem safe_action (hproper : src.Proper n) (hsize : src.tree.structures.size ≤ n)
    (howner : ∀ f struct, (src.tree.functionAt f).owner = .struct struct → struct < n)
    {request : Request} (hstruct : ∀ struct typeArgs, request = .cls struct typeArgs → struct < n) :
    Safe (requestCourse hproper 1) fun i => request.action src i := by
  have hr := requestCourse_serves hproper 1
  cases request with
  | cls struct typeArgs =>
    exact (hr struct typeArgs _).imp (fun _ _ _ => hstruct struct typeArgs rfl) fun _ _ => trivial
  | function key =>
    exact safe_requestFunction hr _ (requestCourse_admits hproper key.typeArgs) fun _ struct h =>
      .inr (howner key.symbol struct h)
  | all =>
    have hdecls := safe_checkDeclarations id hr (requestCourse_admits hproper [])
      (fun _ => howner) fun _ => hsize
    simpa [Request.action] using hdecls.bind fun _ => .pure fun _ _ => trivial

omit hreg in
theorem exists_room (hproper : ∃ n, src.Proper n) (request : Request) :
    ∃ n, src.Proper n ∧ src.tree.structures.size ≤ n ∧
      (∀ f struct, (src.tree.functionAt f).owner = .struct struct → struct < n) ∧
      ∀ struct typeArgs, request = .cls struct typeArgs → struct < n := by
  obtain ⟨n0, hproper⟩ := hproper
  obtain ⟨n1, howner⟩ := src.exists_owner_bound
  obtain ⟨n2, hstruct⟩ : ∃ n : Nat, ∀ struct typeArgs, request = .cls struct typeArgs →
      struct < n := by
    cases request with
    | cls struct typeArgs =>
      refine ⟨struct + 1, ?_⟩
      rintro _ _ ⟨⟩
      exact Nat.lt_succ_self struct
    | function _ | all => exact ⟨0, nofun⟩
  have hle0 : n0 ≤ n0 + n1 + n2 + src.tree.structures.size := by omega
  have hle1 : n1 ≤ n0 + n1 + n2 + src.tree.structures.size := by omega
  have hle2 : n2 ≤ n0 + n1 + n2 + src.tree.structures.size := by omega
  refine ⟨_, hproper.mono hle0, Nat.le_add_left _ _, fun _ _ h => ?_, fun struct typeArgs h => ?_⟩
  · exact Nat.lt_of_lt_of_le (howner h) hle1
  · exact Nat.lt_of_lt_of_le (hstruct struct typeArgs h) hle2

/-- Every request from outside is answered, and nothing is left to be done. -/
theorem leads_run (hproper : ∃ n, src.Proper n) (request : Request) (hs : Settled src s)
    (hrequest : request.Within s.program) :
    Leads (fun i => request.run src i) s fun r t => Settled src t ∧ Follows none s t ∧
      ∃ u, (∃ i, request.action src i s = some (r, u)) ∧ Follows none u t := by
  obtain ⟨n, hproper, hsize, howner, hstruct⟩ := exists_room hproper request
  have hsafe := safe_action hproper hsize howner hstruct
  -- There is a result because of the load; that no class waits for long follows from the agenda.
  have haction : Leads (fun i => request.action src i) s fun _ t =>
      Recorded src t ∧ t.depth = s.depth ∧ Follows none s t ∧ t.waiting = [] := by
    refine ⟨fun {i r t} h => ?_, hsafe.ends trivial ⟨hs.recorded, trivial⟩ trivial⟩
    obtain ⟨⟨ht, -⟩, ⟨hdepth, hst⟩, -⟩ := hsafe.keeps ⟨hs.recorded, trivial⟩ trivial h
    obtain ⟨horderly, -⟩ := orderly_action hreg hs.orderly (fun _ => hrequest) h
    exact ⟨ht, hdepth, hst.follows, (horderly.agenda.ordered trivial).eq_nil⟩
  have hserve := leads_serve hproper (Q := fun r u => ∃ i, request.action src i s = some (r, u))
    (haction.trace.imp fun h => ⟨h.1.1, h.1.2.1, h.1.2.2.1, h.1.2.2.2, h.2⟩)
  simp only [← Request.run_eq_serve] at hserve
  refine ⟨fun {i r t} h => ?_, hserve.ends⟩
  obtain ⟨ht, hdepth, hfollows, hbodies, hfirst⟩ := hserve.keeps h
  rw [Request.run_eq_serve] at h
  obtain ⟨horderly, -, hjudged⟩ := orderly_serve hreg hs.orderly hs.judged
    (fun _ _ h => orderly_action hreg hs.orderly (fun _ => hrequest) h) h
  exact ⟨⟨horderly, hjudged, ht, hbodies, hdepth.trans hs.depth⟩, hfollows, hfirst⟩

omit hreg in
theorem Reached.reachable (h : Reached src s) : Reachable src s := by
  induction h with
  | refl => exact .start
  | tail _ hstep ih =>
    obtain ⟨request, fuel, r, -, h⟩ := hstep
    cases request with
    | cls struct typeArgs => exact .checkClass ih h
    | function key => exact .checkFunctionInstance ih h
    | all =>
      obtain ⟨_, _, h, hlast⟩ := bind_some h
      cases hlast
      exact .checkAll ih h

theorem Reached.settled (hproper : ∃ n, src.Proper n) (h : Reached src s) : Settled src s := by
  induction h with
  | refl => exact settled_start
  | tail _ hstep ih =>
    obtain ⟨request, fuel, r, hrequest, h⟩ := hstep
    exact ((leads_run hreg hproper _ ih hrequest).keeps h).1

end

end ObjectLang.Check

namespace ObjectLang

open Source Syntax Scope Checked Check

/-- A class with a field of its own descendant, classes that extend nothing and themselves, and a
class whose instances lead to ever larger ones. -/
def knots : List (File Hint) := [{
  id := 0
  decls := [
    .cls {
      mark := none, name := "Node"
      fields := [{ mark := none, name := "next", type := .named none ["Leaf"] [] }] },
    .cls { mark := none, name := "Leaf", ancestor := some (.named none ["Node"] []) },
    .cls { mark := none, name := "Lost", ancestor := some (.named none ["Missing"] []) },
    .cls { mark := none, name := "Loop", ancestor := some (.named none ["Loop"] []) },
    .cls {
      mark := none, name := "Box", typeParams := ["T"]
      fields := [{ mark := none, name := "inner"
                   type := .named none ["Box"] [.named none ["Box"] [.named none ["T"] []]] }] },
    .cls {
      mark := none, name := "Holder"
      fields := [{ mark := none, name := "box"
                   type := .named none ["Box"] [.named none ["Node"] []] }] }] }]

theorem checkAll_knots :
    ∃ s, checkAll (sourcesOf "app" [] knots) 200 {} = some ((), s) ∧
      s.program.classes.size = 69 ∧ s.errors.length = 2 ∧ s.deepest = 64 ∧
      (s.program.classAt 1).ancestor = some 0 ∧ (s.program.classAt 3).ancestor = none := by
  have hrun : ((checkAll (sourcesOf "app" [] knots) 200 {}).any fun r =>
      decide (r.2.program.classes.size = 69 ∧ r.2.errors.length = 2 ∧ r.2.deepest = 64 ∧
        (r.2.program.classAt 1).ancestor = some 0 ∧ (r.2.program.classAt 3).ancestor = none)) =
        true := by
    decide +kernel
  match h : checkAll (sourcesOf "app" [] knots) 200 {}, hrun with
  | some ((), s), hs =>
    simp only [Option.any_some, decide_eq_true_eq] at hs
    exact ⟨s, rfl, hs⟩

end ObjectLang
