import ObjectLang.Proofs.SlotUpdates
import ObjectLang.Proofs.Checking

/-! # Methods that share a slot

A call through a slot is made with one signature, whichever method the slot holds.  A method that
overrides another is compared with that one only, and what is unknown is not compared at all; so
methods of one slot agree because all types of their signatures are known, and each agrees with the
method that opened the slot.
-/

namespace ObjectLang.Names

open Syntax

/-- The name means something: a structure, or one of the type parameters. -/
def Target.Means (params : List String) : Target → Prop
  | .struct _ => True
  | .typeParam name => name ∈ params
  | .unknown => False

namespace Resolution

mutual

/-- Every name in the type means something where the type parameters are `params`. -/
def Means (r : Resolution) (params : List String) : TypeExpr Mark → Prop
  | .primitive _ _ => True
  | .named m _ args => (r.target m.node).Means params ∧ MeansAll r params args

def MeansAll (r : Resolution) (params : List String) : List (TypeExpr Mark) → Prop
  | [] => True
  | t :: ts => Means r params t ∧ MeansAll r params ts

end

/-- Every name in the signature means something, the type parameters of the function and those
around it included. -/
structure MeansSignature (r : Resolution) (outer : List String) (f : Function Mark) : Prop where
  params : ∀ p ∈ f.params, r.Means (f.typeParams ++ outer) p.type
  returnType : ∀ t, f.returnType = some t → r.Means (f.typeParams ++ outer) t

end Resolution

end ObjectLang.Names

namespace ObjectLang.Checked

structure FuncInst.Known (f : FuncInst) : Prop where
  params : .unknown ∉ f.paramTypes
  returnType : f.returnType ≠ .unknown

structure FuncInst.SameTypes (f g : FuncInst) : Prop where
  params : g.paramTypes = f.paramTypes
  returnType : g.returnType = f.returnType

namespace FuncInst

variable {f g h : FuncInst}

theorem SameTypes.refl (f : FuncInst) : f.SameTypes f := ⟨rfl, rfl⟩

theorem SameTypes.symm (a : f.SameTypes g) : g.SameTypes f := ⟨a.params.symm, a.returnType.symm⟩

theorem SameTypes.trans (a : f.SameTypes g) (b : g.SameTypes h) : f.SameTypes h :=
  ⟨b.params.trans a.params, b.returnType.trans a.returnType⟩

theorem Known.same (hf : f.Known) (a : f.SameTypes g) : g.Known :=
  ⟨a.params ▸ hf.params, a.returnType ▸ hf.returnType⟩

end FuncInst

namespace Program

/-- The methods of the class that stand in slots are known and agree with what opened their
slots. -/
def SlotsAgree (p : Program) (c : ClassId) : Prop :=
  ∀ ⦃f k⦄, (p.functionAt f).owner = some c → (p.functionAt f).slot = some k →
    (p.functionAt f).Known ∧
      ∀ o, (p.classAt c).slotOwners[k]? = some o → (p.functionAt o).SameTypes (p.functionAt f)

/-- Functions stand where they stood and have the types that they had. -/
structure SameStanding (p q : Program) : Prop where
  owner : ∀ f, (q.functionAt f).owner = (p.functionAt f).owner
  slot : ∀ f, (q.functionAt f).slot = (p.functionAt f).slot
  types : ∀ f, (p.functionAt f).SameTypes (q.functionAt f)

variable {p q : Program} {c : ClassId}

theorem SameStanding.of_eq (h : q.functions = p.functions) : p.SameStanding q := by
  have hat (f : FuncId) : q.functionAt f = p.functionAt f := by rw [functionAt, h, functionAt]
  exact ⟨fun f => by rw [hat], fun f => by rw [hat], fun f => hat f ▸ .refl _⟩

theorem SlotsAgree.congr (hp : p.SlotsAgree c) (h : p.SameStanding q)
    (hslots : (q.classAt c).slotOwners = (p.classAt c).slotOwners) : q.SlotsAgree c := by
  intro f k howner hslot
  rw [h.owner] at howner
  rw [h.slot] at hslot
  rcases hp howner hslot with ⟨hknown, hopener⟩
  refine ⟨hknown.same (h.types f), fun o ho => ?_⟩
  exact (h.types o).symm.trans ((hopener o (hslots ▸ ho)).trans (h.types f))

/-- All of a slot's methods have the types of the one that opened it. -/
theorem ClassTable.sameTypes_of_slot (hp : p.ClassTable) (hagree : ∀ d, p.SlotsAgree d)
    {d : ClassId} {n : String} {f o : FuncId} {k : Nat} (hd : d ∈ p.chain c)
    (hentry : (p.classAt d).methods[n]? = some (.inst f)) (hslot : (p.functionAt f).slot = some k)
    (ho : (p.classAt c).slotOwners[k]? = some o) : (p.functionAt o).SameTypes (p.functionAt f) := by
  rcases hp.dispatching.joined hentry hslot with ⟨o', ho', -⟩
  obtain rfl : o = o' := Option.some.inj (ho.symm.trans (hp.slotOwner_of_mem_chain hd ho'))
  exact (hagree d (hp.dispatching.entered hentry).2.1 hslot).2 o ho'

end Program

end ObjectLang.Checked

namespace ObjectLang.Check

open Source Syntax Scope Names Checked

/-- Every type in the signature of a method of a class means something. -/
def Sources.Named (src : Sources) : Prop :=
  ∀ ⦃struct decl f⦄ ⦃n : String⦄, (src.tree.structureAt struct).decl.cls? = some decl →
    (src.tree.structureAt struct).methods[n]? = some f →
    src.names.MeansSignature decl.typeParams (src.tree.functionAt f).decl

/-- The function is a method of its class and has no type arguments of its own. -/
structure IsMethod (src : Sources) (p : Program) (f : FuncInst) (c : ClassId) (m : SymbolId) :
    Prop where
  symbol : f.symbol = some m
  owner : f.owner = some c
  declared : ∃ n : String, (src.tree.structureAt (p.classAt c).struct).methods[n]? = some m
  typeArgs : f.typeArgs = []

/-- There is a known type for each of the type parameters. -/
structure Applied (src : Sources) (c : ClassInst) : Prop where
  length : c.typeArgs.length = (src.tree.structureAt c.struct).decl.typeParams.length
  known : .unknown ∉ c.typeArgs

/-- The signatures of methods are known, but for those that are being resolved, and methods that
share a slot agree. -/
structure Uniform (src : Sources) (signing : List FuncId) (p : Program) : Prop where
  applied : ∀ {c}, c < p.classes.size → Applied src (p.classAt c)
  methods : ∀ {f c m}, f ∉ signing → IsMethod src p (p.functionAt f) c m → (p.functionAt f).Known
  slots : ∀ c, p.SlotsAgree c

end ObjectLang.Check
