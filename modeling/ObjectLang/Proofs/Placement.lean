import ObjectLang.Proofs.Generation

/-! # Where fields stand

Fields stand behind the header one after the other, and where the first ones stand does not depend
on those behind them.
-/

namespace ObjectLang.Code

open Checked

theorem le_alignUp (n : Nat) {align : Nat} (h : 0 < align) : n ≤ alignUp n align := by
  have hmod := Nat.mod_add_div (n + align - 1) align
  have hlt := Nat.mod_lt (n + align - 1) h
  rw [alignUp, Nat.mul_comm]
  omega

theorem MachineType.bytes_pos (t : MachineType) : 0 < t.bytes := by cases t <;> decide

namespace Layout

variable {ptr : MachineType} {cursor stop : Nat} {fs : List FieldInst} {ls : List FieldLayout}

theorem place_cons {f : FieldInst} (h : place ptr cursor (f :: fs) = .ok (ls, stop)) :
    ∃ type rest, valueType ptr f.ty = .ok type ∧
      place ptr (alignUp cursor type.bytes + type.bytes) fs = .ok (rest, stop) ∧
      ls = { offset := alignUp cursor type.bytes, type, isReference := f.ty.isReference } ::
      rest := by
  obtain ⟨type, htype, h⟩ := except_bind_ok h
  obtain ⟨⟨rest, stop'⟩, hrest, h⟩ := except_bind_ok h
  cases h
  exact ⟨type, rest, Simulation.mapError_ok htype, hrest, rfl⟩

theorem place_prefix {fs' : List FieldInst} {ls' : List FieldLayout} {stop' : Nat}
    (h : place ptr cursor fs = .ok (ls, stop)) (h' : place ptr cursor fs' = .ok (ls', stop'))
    (hfs : fs.map (·.ty) <+: fs'.map (·.ty)) : ls <+: ls' := by
  induction fs generalizing cursor ls fs' ls' with
  | nil =>
    cases h
    exact List.nil_prefix
  | cons f fs ih =>
    cases fs' with
    | nil => simp at hfs
    | cons f' fs' =>
      obtain ⟨type, rest, htype, hrest, rfl⟩ := place_cons h
      obtain ⟨type', rest', htype', hrest', rfl⟩ := place_cons h'
      obtain ⟨hty, hfs⟩ := List.cons_prefix_cons.mp hfs
      change f.ty = f'.ty at hty
      rw [← hty, htype] at htype'
      cases htype'
      rw [hty]
      exact (List.prefix_cons_inj _).mpr (ih hrest hrest' hfs)

end Layout

theorem forall₂_of_mapM_ok {α β ε : Type} {f : α → Except ε β} {xs : List α} {ys : List β}
    (h : xs.mapM f = .ok ys) : List.Forall₂ (fun x y => f x = .ok y) xs ys := by
  induction xs generalizing ys with
  | nil =>
    cases h
    exact .nil
  | cons x xs ih =>
    rw [List.mapM_cons] at h
    obtain ⟨y, hy, h⟩ := except_bind_ok h
    obtain ⟨ys, hys, h⟩ := except_bind_ok h
    cases h
    exact .cons hy (ih hys)

theorem layouts_of_generate {ptr : MachineType} {p : Program} {m : Module}
    (h : generate ptr p = .ok m) : layouts ptr p = .ok m.layouts := by
  obtain ⟨ls, hls, h⟩ := except_bind_ok h
  obtain ⟨declared, -, h⟩ := except_bind_ok h
  obtain ⟨s, -, h⟩ := except_bind_ok h
  cases h
  exact hls

theorem place_of_ofClass {ptr : MachineType} {cls : ClassInst} {l : Layout}
    (h : Layout.ofClass ptr cls = .ok l) :
    ∃ stop, Layout.place ptr Layout.headerSize cls.fields = .ok (l.fields, stop) := by
  unfold Layout.ofClass at h
  split at h
  · cases h
  · obtain ⟨⟨fields, stop⟩, hplace, h⟩ := except_bind_ok h
    cases h
    exact ⟨stop, hplace⟩

end ObjectLang.Code
