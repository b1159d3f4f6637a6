import ObjectLang.Proofs.CheckSoundness
import ObjectLang.Proofs.Emission

/-! # Integer literals

A literal has the numeric type that its place asks for.  Nothing asks whether its number fits: as an
`i32` it becomes the constant that agrees with it modulo the number of words, which is the number
itself only in range.
-/

namespace ObjectLang.Code

open Syntax Checked

/-- The number of a 32-bit constant: it is in range, it agrees with the written one, and it is the
written one exactly if that is in range. -/
theorem MachineType.wrap_i32 (n : Int) :
    -0x80000000 ≤ i32.wrap n ∧ i32.wrap n < 0x80000000 ∧ 0x100000000 ∣ n - i32.wrap n ∧
      (i32.wrap n = n ↔ -0x80000000 ≤ n ∧ n < 0x80000000) := by
  have hdef : i32.wrap n = n.bmod 0x100000000 := rfl
  have hlow : -0x80000000 ≤ n.bmod 0x100000000 := Int.le_bmod (by decide)
  have hhigh : n.bmod 0x100000000 < 0x80000000 := Int.bmod_lt (by decide)
  have hmod : n.bmod 0x100000000 % 0x100000000 = n % 0x100000000 := Int.bmod_emod
  rw [hdef]
  omega

theorem lowerExpr_int {i : Info} (h : i.ty = .i32) (cx : Context) (n : Int) (e : Emitter) :
    lowerExpr cx (.int i n) e =
      .ok (some e.nextValue, e.withValue.push
      (.intConst e.nextValue .i32 (MachineType.i32.wrap n))) := by
  rw [lowerExpr, h]
  rfl

end ObjectLang.Code

namespace ObjectLang

open Source Syntax Scope Checked Check Code

/-- Whatever the check of a project reports, every integer literal is of a numeric type.  An `i32`
becomes the 32-bit constant that agrees with the written number modulo 2³², and is that number
exactly if the number is in range. -/
theorem int_literals_wrap (name : String) (dependencies : List String) (files : List (File Hint))
    {fuel : Nat} {s : State} (h : checkAll
      (Project.ofWritten name dependencies files).resolve.sources fuel {} = some ((), s))
    {f : FuncId} (hf : f < s.program.functions.size) {i : Info} {n : Int}
    (hn : .expr (.int i n) ∈ (s.program.functionAt f).nodes) :
    i.ty.isNumeric = true ∧ (i.ty = .i32 → ∀ cx e, ∃ c,
      lowerExpr cx (.int i n) e =
        .ok (some e.nextValue, e.withValue.push (.intConst e.nextValue .i32 c)) ∧
      -0x80000000 ≤ c ∧ c < 0x80000000 ∧ 0x100000000 ∣ n - c ∧
      (c = n ↔ -0x80000000 ≤ n ∧ n < 0x80000000)) := by
  refine ⟨(checked_orderly name dependencies files h).2.forms trivial f hf _ hn, fun hty cx e => ?_⟩
  exact ⟨_, lowerExpr_int hty cx n e, MachineType.wrap_i32 n⟩

/-- A function that returns a number out of the range of its type. -/
def overflow : List (File Hint) := [{
  id := 0
  decls := [
    .function {
      mark := none, name := "main", returnType := some (.primitive none .i32)
      body := some (.mk none [] (some (.int none 3000000000))) }] }]

def isI32 (n : Int) : Node → Bool
  | .expr (.int i m) => decide (i.ty = .i32 ∧ m = n)
  | _ => false

theorem eq_of_isI32 {n : Int} {node : Node} (h : isI32 n node = true) :
    ∃ i, i.ty = .i32 ∧ node = .expr (.int i n) := by
  unfold isI32 at h
  split at h
  · next i m =>
    obtain ⟨hty, rfl⟩ := of_decide_eq_true h
    exact ⟨i, hty, rfl⟩
  · cases h

theorem checkAll_overflow :
    ∃ s i, checkAll (Project.ofWritten "app" [] overflow).resolve.sources 50 {} = some ((), s) ∧
    s.Clean ∧
      0 < s.program.functions.size ∧ i.ty = .i32 ∧
      .expr (.int i 3000000000) ∈ (s.program.functionAt 0).nodes := by
  have hrun : ((checkAll (Project.ofWritten "app" [] overflow).resolve.sources 50 {}).any fun r =>
      r.2.errors.isEmpty && r.2.withdrawn.isEmpty && decide (0 < r.2.program.functions.size) &&
      (r.2.program.functionAt 0).nodes.any (isI32 3000000000)) = true := by decide +kernel
  simp only [Option.any_eq_true, Bool.and_eq_true, List.isEmpty_iff, decide_eq_true_eq,
    List.any_eq_true] at hrun
  obtain ⟨⟨_, s⟩, h, ⟨hclean, hsize⟩, node, hmem, hnode⟩ := hrun
  obtain ⟨i, hty, rfl⟩ := eq_of_isI32 hnode
  exact ⟨s, i, h, hclean, hsize, hty, hmem⟩

/-- The literal out of range is accepted, and becomes a negative constant. -/
theorem int_literals_wrap_overflow :
    ∃ s i, checkAll (Project.ofWritten "app" [] overflow).resolve.sources 50 {} = some ((), s) ∧
    s.Clean ∧
      .expr (.int i 3000000000) ∈ (s.program.functionAt 0).nodes ∧ i.ty = .i32 ∧
      ∀ cx e, lowerExpr cx (.int i 3000000000) e =
        .ok (some e.nextValue, e.withValue.push (.intConst e.nextValue .i32 (-1294967296))) := by
  obtain ⟨s, i, h, hclean, hsize, hty, hmem⟩ := checkAll_overflow
  refine ⟨s, i, h, hclean, hmem, hty, fun cx e => ?_⟩
  obtain ⟨c, hlower, hlow, hhigh, hmod, -⟩ :=
    (int_literals_wrap "app" [] overflow h hsize hmem).2 hty cx e
  obtain rfl : c = -1294967296 := by omega
  exact hlower

/-- A literal that is out of the range of its type is not reported. -/
theorem out_of_range_accepted :
    ((Project.ofWritten "app" [] overflow).analyze 50).any (fun a => !a.hasErrors &&
      (a.program.functionAt 0).nodes.any (isI32 3000000000)) = true := by decide +kernel

end ObjectLang
