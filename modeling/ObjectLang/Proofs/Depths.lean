import ObjectLang.Proofs.BodyCourses
import ObjectLang.Proofs.Service

/-! # The depth of instantiation

Whatever is asked for, from whatever state: afterwards the depth is what it was before, and on the
way it was never greater than allowed, nor was a greater one stored with a class or a body.
-/

namespace ObjectLang.Check

open Source Syntax Scope Names Diagnostic Checked

/-- The depth is within the limit, always was, and will be at all that is still to be done. -/
structure State.Shallow (s : State) : Prop where
  depth : s.depth ≤ maxDepth
  deepest : s.deepest ≤ maxDepth
  waiting : ∀ w ∈ s.waiting, w.pending.depth ≤ maxDepth
  bodies : ∀ task ∈ s.bodies, task.env.depth ≤ maxDepth

/-- The depth is the same, and within the limit if it was. -/
structure Level (s t : State) : Prop where
  depth : t.depth = s.depth
  shallow : s.Shallow → t.Shallow

variable {src : Sources} {s t u : State}

theorem State.Shallow.atDepth (hs : s.Shallow) {depth : Nat} (hdepth : depth ≤ maxDepth) :
    (s.atDepth depth).Shallow :=
  ⟨hdepth, max_le hs.deepest hdepth, hs.waiting, hs.bodies⟩

theorem State.Shallow.withBody (hs : s.Shallow) {task : BodyTask}
    (htask : task.env.depth ≤ maxDepth) :
    (s.withBody task).Shallow := by
  refine ⟨hs.depth, hs.deepest, hs.waiting, fun task' h => ?_⟩
  rcases List.mem_append.mp h with h | h
  · exact hs.bodies task' h
  · rwa [List.mem_singleton.mp h]

namespace Level

theorem refl (s : State) : Level s s := ⟨rfl, id⟩

theorem trans (h : Level s t) (h' : Level t u) : Level s u :=
  ⟨h'.depth.trans h.depth, fun hs => h'.shallow (h.shallow hs)⟩

theorem of_sameWork (h : SameWork s t) : Level s t := by
  refine ⟨h.depth, fun hs => ⟨?_, ?_, ?_, ?_⟩⟩
  · exact h.depth ▸ hs.depth
  · exact h.deepest ▸ hs.deepest
  · exact h.waiting ▸ hs.waiting
  · exact h.bodies ▸ hs.bodies

theorem restore {depth : Nat} (h : Level (s.atDepth depth) t)
    (hdepth : s.Shallow → depth ≤ maxDepth) : Level s (t.atDepth s.depth) :=
  ⟨rfl, fun hs => (h.shallow (hs.atDepth (hdepth hs))).atDepth hs.depth⟩

end Level

/-- The course on which only depths are watched. -/
def depthCourse (src : Sources) : Course src where
  holds _ := True
  goes := Level
  strict := False
  live := False
  bound := 0
  trans := .trans
  level h := h.depth
  still _ hwork _ := ⟨trivial, .of_sameWork hwork⟩
  retains := nofun
  proper := nofun
  generics := nofun
  opens _ _ _ := ⟨trivial, .of_sameWork ⟨rfl, rfl, rfl, rfl⟩⟩
  pushes _ _ _ := ⟨trivial, .of_sameWork ⟨rfl, rfl, rfl, rfl⟩⟩

theorem depthCourse_queues {grow : Nat} (hgrow : grow ≤ 1) : (depthCourse src).Queues grow := by
  refine fun s task _ htask hroom => ⟨trivial, rfl, fun hs => hs.withBody ?_⟩
  rw [htask]
  have := hs.depth
  rcases Nat.eq_zero_or_pos grow with hzero | hpos
  · omega
  · have := hroom hpos
    omega

theorem depthCourse_admits (typeArgs : List Ty) : (depthCourse src).Admits typeArgs :=
  depthCourse_queues (by split <;> omega)

/-- A step that does not change depths. -/
theorem level_of_safe (src : Sources) {α : Type} {x : Checking α} {a : α}
    (hx : Safe (depthCourse src) fun _ => x) (h : x s = some (a, t)) : Level s t :=
  (hx.keeps (i := 0) trivial trivial h).2.1

/-! ### Classes -/

section

variable {request : ClassRequest} (hr : (depthCourse src).Serves fun _ => request)

include hr

variable {ancestor : Option ClassId} {decl : Class Mark}

theorem level_buildLayout {cls : ClassId} {subst : Subst}
    (h : buildLayout src request cls decl subst ancestor s = some ((), t)) : Level s t := by
  have hlast (f : ClassInst → ClassInst) : Safe (depthCourse src) fun _ => updateClass cls f :=
    .step fun _ _ => ⟨(), _, rfl, trivial, .of_sameWork ⟨rfl, rfl, rfl, rfl⟩, trivial⟩
  refine level_of_safe src ?_ h
  refine .bind (.still (.takeChainId cls ancestor)) fun _ =>
    .bind (.quiet .getProgram) fun _ => .bind (safe_layoutFields hr cls subst _ decl.fields)
      fun _ => ?_
  exact hlast _

theorem level_buildClass {pending : Pending}
    (h : buildClass src request pending ancestor s = some ((), t)) :
    t.depth = s.depth ∧ (s.Shallow → pending.depth ≤ maxDepth → t.Shallow) := by
  rw [buildClass] at h
  obtain ⟨_, _, hget, h⟩ := bind_some h
  cases hget
  dsimp only at h
  cases hdecl : (src.tree.structureAt (s.program.classAt pending.cls).struct).decl.cls? with
  | none =>
    rw [hdecl] at h
    cases h
    exact ⟨rfl, fun hs _ => hs⟩
  | some decl =>
    rw [hdecl] at h
    obtain ⟨_, s1, h1, h⟩ := bind_some h
    cases h1
    obtain ⟨_, s2, h2, h⟩ := bind_some h
    obtain ⟨_, s3, h3, h⟩ := bind_some h
    obtain ⟨_, s4, h4, h⟩ := bind_some h
    obtain ⟨_, s5, h5, h⟩ := bind_some h
    obtain ⟨_, s6, h6, h⟩ := bind_some h
    cases h
    have hq : (depthCourse src).Queues 0 := depthCourse_queues (Nat.zero_le 1)
    have hlayout := level_buildLayout hr h2
    have hmethods :=
      level_of_safe src (.forM fun _ hmethod => safe_buildMethod hr hq _ hdecl hmethod) h3
    have hinit := level_of_safe src (safe_buildInit hr hq _ _) h4
    have hprotocols := level_of_safe src (.forM fun clause _ =>
      safe_checkConformance hr (fun _ => False.elim) _ clause) h5
    have hfinish : Level s5 s6 := by
      cases h6
      exact .of_sameWork ⟨rfl, rfl, rfl, rfl⟩
    have hall := hlayout.trans (hmethods.trans (hinit.trans (hprotocols.trans hfinish)))
    refine ⟨rfl, fun hs hpending => ?_⟩
    exact (hall.restore fun _ => hpending).shallow hs

theorem level_completeClass {fuel : Nat} {pending : Pending}
    (h : completeClass src request fuel pending ancestor s = some ((), t)) :
    t.depth = s.depth ∧ (s.Shallow → pending.depth ≤ maxDepth → t.Shallow) := by
  induction fuel generalizing s t pending ancestor with
  | zero => cases h
  | succ fuel ih =>
    rw [completeClass] at h
    obtain ⟨_, s1, h1, h⟩ := bind_some h
    obtain ⟨ds, s2, h2, h⟩ := bind_some h
    obtain ⟨hdepth1, hshallow1⟩ := level_buildClass hr h1
    cases h2
    -- What waited for the class was stored within the limit, and so is what is left of it.
    have hrun := forM_some (fun (rest : List Pending) u => u.depth = s.depth ∧
      (s.Shallow → pending.depth ≤ maxDepth → u.Shallow ∧ ∀ d ∈ rest, d.depth ≤ maxDepth)) ?_ ?_ h
    · exact ⟨hrun.1, fun hs hpending => (hrun.2 hs hpending).1⟩
    · rintro d rest u v ⟨hdepth, hshallow⟩ hstep
      obtain ⟨hdepth', hshallow'⟩ := ih hstep
      refine ⟨hdepth'.trans hdepth, fun hs hpending => ?_⟩
      obtain ⟨hu, hds⟩ := hshallow hs hpending
      exact ⟨hshallow' hu (hds d List.mem_cons_self),
        fun d' hd' => hds d' (List.mem_cons_of_mem d hd')⟩
    · refine ⟨hdepth1, fun hs hpending => ?_⟩
      have hs1 := hshallow1 hs hpending
      refine ⟨⟨hs1.depth, hs1.deepest, fun w hw => hs1.waiting w (List.mem_of_mem_filter hw),
        hs1.bodies⟩, fun d hd => ?_⟩
      obtain ⟨w, hw, rfl⟩ := List.mem_map.mp hd
      exact hs1.waiting w (List.mem_of_mem_filter hw)

theorem level_resolveAncestor {cls : ClassId} {subst : Subst} {r : Ancestor}
    (h : resolveAncestor src request cls decl subst s = some (r, t)) : Level s t := by
  have hmodify (f : State → List ClassId) : Safe (depthCourse src) fun _ =>
      (modify fun s => { s with resolving := f s } : Checking PUnit) :=
    .step fun _ _ => ⟨_, _, rfl, trivial, .of_sameWork ⟨rfl, rfl, rfl, rfl⟩, trivial⟩
  refine level_of_safe src ?_ h
  simp only [resolveAncestor]
  cases decl.ancestor with
  | none => exact .pure fun _ _ => trivial
  | some clause =>
    exact .bind (.quiet .get) fun _ => .bind (hmodify _) fun _ =>
      .bind (safe_resolveType hr clause) fun _ => .bind (hmodify _) fun _ =>
        .quiet (.judgeAncestor src _ _ _ _)

omit hr in
theorem level_enterDepth {struct : StructureId} {typeArgs : List Ty} {span : Span} {r : Option Nat}
    (h : enterDepth src struct typeArgs span s = some (r, t)) :
    Level s t ∧ ∀ depth, r = some depth → t.Shallow → depth ≤ maxDepth := by
  rw [enterDepth] at h
  obtain ⟨_, _, hget, h⟩ := bind_some h
  cases hget
  dsimp only at h
  split at h
  · cases h
    refine ⟨.refl s, ?_⟩
    rintro _ ⟨⟩ hs
    exact hs.depth
  split at h
  · obtain ⟨_, s1, h1, h⟩ := bind_some h
    cases h
    exact ⟨level_of_safe src (.quiet (.report span)) h1, by simp⟩
  · next hroom =>
    cases h
    refine ⟨.refl s, ?_⟩
    rintro _ ⟨⟩ -
    omega

theorem level_instantiateClass {fuel : Nat} {struct : StructureId} {typeArgs : List Ty}
    {span : Span} {r : Option ClassId}
    (h : instantiateClass src request fuel struct decl typeArgs span s = some (r, t)) :
    Level s t := by
  rw [instantiateClass] at h
  obtain ⟨_, _, hget, h⟩ := bind_some h
  cases hget
  obtain ⟨entered, s1, h1, h⟩ := bind_some h
  obtain ⟨hlevel1, hentered⟩ := level_enterDepth h1
  cases entered with
  | none =>
    cases h
    exact hlevel1
  | some depth =>
    obtain ⟨_, s2, h2, h⟩ := bind_some h
    cases h2
    obtain ⟨_, _, hget, h⟩ := bind_some h
    cases hget
    obtain ⟨cls, s3, h3, h⟩ := bind_some h
    have hlevel3 : Level (s1.atDepth depth) s3 := by
      cases h3
      exact .of_sameWork ⟨rfl, rfl, rfl, rfl⟩
    obtain ⟨found, s4, h4, h⟩ := bind_some h
    have hlevel4 := hlevel3.trans (level_resolveAncestor hr h4)
    have hdepth4 : s4.depth = depth := hlevel4.depth
    -- Whether the class is completed or waits, the depth is that of the class until it is restored.
    have hlast {s5 : State} (hlevel5 : Level s4 s5)
        (h : (do setDepth s.depth; return some cls : Checking (Option ClassId)) s5 = some (r, t)) :
        Level s t := by
      cases h
      have hlevel := (hlevel4.trans hlevel5).restore (hentered depth rfl)
      rw [hlevel1.depth] at hlevel
      exact hlevel1.trans hlevel
    cases found with
    | ready ancestor =>
      obtain ⟨_, s5, h5, h⟩ := bind_some h
      obtain ⟨hdepth5, hshallow5⟩ := level_completeClass hr h5
      exact hlast ⟨hdepth5, fun hs => hshallow5 hs (hdepth4 ▸ hs.depth)⟩ h
    | waiting base =>
      obtain ⟨_, s5, h5, h⟩ := bind_some h
      cases h5
      refine hlast ⟨?_, fun hs => ⟨?_, ?_, fun w hw => ?_, ?_⟩⟩ h
      · rfl
      · exact hs.depth
      · exact hs.deepest
      rcases List.mem_append.mp hw with hw | hw
      · exact hs.waiting w hw
      · rw [List.mem_singleton.mp hw]
        exact hdepth4 ▸ hs.depth
      · exact hs.bodies

end

/-- However deeply classes lead to classes, the depth is restored. -/
theorem serves_depthCourse (fuel : Nat) :
    (depthCourse src).Serves fun _ => requestClass src fuel := by
  induction fuel with
  | zero => exact fun _ _ _ => ⟨fun _ _ h => (by cases h), False.elim⟩
  | succ fuel ih =>
    refine fun struct typeArgs span => .imp (P := fun _ => True) (Q := fun _ _ => True) ?_
      (fun _ _ => trivial) fun _ _ => False.elim
    simp only [requestClass]
    refine .bind (works_findClass _) fun found => ?_
    cases found with
    | some c => exact .pure fun _ _ => trivial
    | none =>
      dsimp only
      cases (src.tree.structureAt struct).decl.cls? with
      | none => exact .pure fun _ _ => trivial
      | some decl =>
        refine .ite (fun _ => ?_) fun _ => ⟨fun _ _ h => ?_, False.elim⟩
        · exact .bind (.quiet (.report span)) fun _ => .pure fun _ _ => trivial
        · exact ⟨trivial, level_instantiateClass ih h, trivial⟩

/-! ### Functions and bodies -/

theorem hosts_depthCourse (fuel : Nat) :
    (depthCourse src).Hosts fun _ => requestClass src fuel where
  classes := serves_depthCourse fuel
  functions key span := (safe_requestFunction (serves_depthCourse fuel) span
    (depthCourse_admits key.typeArgs) nofun).imp (fun _ _ => trivial) fun _ h => h
  takesBack _ _ h := ⟨trivial, h.trans (.of_sameWork ⟨rfl, rfl, rfl, rfl⟩)⟩

variable {fuel : Nat}

theorem level_requestClass {struct : StructureId} {typeArgs : List Ty} {span : Span}
    {r : Option ClassId}
    (h : requestClass src fuel struct typeArgs span s = some (r, t)) : Level s t :=
  ((serves_depthCourse fuel struct typeArgs span).keeps (i := 0) trivial nofun h).2.1

theorem level_requestFunction {key : FunctionKey} {span : Span} {r : Option FuncId}
    (h : requestFunction src (requestClass src fuel) key span s = some (r, t)) : Level s t :=
  (((hosts_depthCourse fuel).functions key span).keeps (i := 0) trivial nofun h).2.1

theorem level_checkBody {task : BodyTask}
    (h : checkBody src (requestClass src fuel) task s = some ((), t)) :
    t.depth = s.depth ∧ (s.Shallow → task.env.depth ≤ maxDepth → t.Shallow) := by
  rw [checkBody] at h
  obtain ⟨_, _, hget, h⟩ := bind_some h
  cases hget
  dsimp only at h
  obtain ⟨_, s1, h1, h⟩ := bind_some h
  cases h1
  obtain ⟨r, s2, h2, h⟩ := bind_some h
  obtain ⟨_, s3, h3, h⟩ := bind_some h
  cases h3
  have hbody : Level (s.atDepth task.env.depth) s2 :=
    level_of_safe src (safe_checkFunction (hosts_depthCourse fuel) _ _ _ _ _) h2
  have hlast : Level (s2.atDepth s.depth) t := by
    cases h
    exact .of_sameWork ⟨rfl, rfl, rfl, rfl⟩
  refine ⟨hlast.depth, fun hs htask => ?_⟩
  exact hlast.shallow ((hbody.restore fun _ => htask).shallow hs)

/-! ### Requests from outside -/

theorem level_drain {steps : Nat} (h : drain src (requestClass src fuel) steps s = some ((), t)) :
    Level s t := by
  induction steps generalizing s with
  | zero => cases h
  | succ steps ih =>
    rw [drain] at h
    obtain ⟨_, _, hget, h⟩ := bind_some h
    cases hget
    cases hbodies : s.bodies with
    | nil =>
      rw [hbodies] at h
      cases h
      exact .refl _
    | cons task rest =>
      rw [hbodies] at h
      obtain ⟨_, _, hset, h⟩ := bind_some h
      cases hset
      obtain ⟨_, s2, h2, h⟩ := bind_some h
      obtain ⟨hdepth, hshallow⟩ := level_checkBody h2
      refine Level.trans ⟨hdepth, fun hs => ?_⟩ (ih h)
      have htasks := hs.bodies
      rw [hbodies] at htasks
      exact hshallow ⟨hs.depth, hs.deepest, hs.waiting,
        fun x hx => htasks x (List.mem_cons_of_mem task hx)⟩ (htasks task List.mem_cons_self)

theorem level_completeOrphans {steps : Nat}
    (h : completeOrphans src (requestClass src fuel) steps s = some ((), t)) : Level s t := by
  induction steps generalizing s with
  | zero => cases h
  | succ steps ih =>
    rw [completeOrphans] at h
    obtain ⟨_, _, hget, h⟩ := bind_some h
    cases hget
    split at h
    · cases h
      exact .refl _
    · obtain ⟨_, s1, h1, h⟩ := bind_some h
      cases h1
      obtain ⟨_, s2, h2, h⟩ := bind_some h
      have hrun := forM_some (fun (rest : List Waiting) u => u.depth = s.depth ∧
        (s.Shallow → u.Shallow ∧ ∀ w ∈ rest, w.pending.depth ≤ maxDepth)) ?_ ?_ h2
      · exact Level.trans ⟨hrun.1, fun hs => (hrun.2 hs).1⟩ (ih h)
      · rintro w rest u v ⟨hdepth, hshallow⟩ hstep
        obtain ⟨_, u1, hu1, hstep⟩ := bind_some hstep
        have hreport : Level u u1 := by
          obtain ⟨errors, rfl, -⟩ := reportOrphan_some hu1
          exact .of_sameWork ⟨rfl, rfl, rfl, rfl⟩
        obtain ⟨hdepth', hshallow'⟩ := level_completeClass (serves_depthCourse fuel) hstep
        refine ⟨hdepth'.trans (hreport.depth.trans hdepth), fun hs => ?_⟩
        obtain ⟨hu, hws⟩ := hshallow hs
        exact ⟨hshallow' (hreport.shallow hu) (hws w List.mem_cons_self), fun w' hw' =>
          hws w' (List.mem_cons_of_mem w hw')⟩
      · refine ⟨rfl, fun hs => ⟨⟨hs.depth, hs.deepest, fun _ hw => ?_, hs.bodies⟩, hs.waiting⟩⟩
        exact absurd hw List.not_mem_nil

theorem level_serve {α : Type} {action : Checking α} {a : α}
    (haction : ∀ ⦃a u⦄, action s = some (a, u) → Level s u)
    (h : serve src fuel action s = some (a, t)) :
    Level s t := by
  rw [serve] at h
  obtain ⟨_, s1, h1, h⟩ := bind_some h
  obtain ⟨_, s2, h2, h⟩ := bind_some h
  obtain ⟨_, s3, h3, h⟩ := bind_some h
  cases h
  exact (haction h1).trans ((level_completeOrphans h2).trans (level_drain h3))

theorem level_checkAll (h : checkAll src fuel s = some ((), t)) : Level s t :=
  level_serve (fun _ _ h => level_of_safe src (safe_checkDeclarations (fun _ => fuel)
    (serves_depthCourse fuel) (depthCourse_admits []) nofun nofun) h) h

theorem Reachable.shallow (h : Reachable src s) : s.depth = 0 ∧ s.Shallow := by
  have hstep {s t : State} (hs : s.depth = 0 ∧ s.Shallow) (hst : Level s t) :
      t.depth = 0 ∧ t.Shallow :=
    ⟨hst.depth.trans hs.1, hst.shallow hs.2⟩
  induction h with
  | start => exact ⟨rfl, Nat.zero_le _, Nat.zero_le _, nofun, nofun⟩
  | checkClass _ hrun ih => exact hstep ih (level_serve (fun _ _ h => level_requestClass h) hrun)
  | checkFunctionInstance _ hrun ih =>
    exact hstep ih (level_serve (fun _ _ h => level_requestFunction h) hrun)
  | checkAll _ hrun ih => exact hstep ih (level_checkAll hrun)

end ObjectLang.Check
