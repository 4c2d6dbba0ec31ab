/-
Readers that recognise their bytes.

`Reads r bytes a` says that the reader `r` finds `a` in `bytes` without looking at what follows, and
that on less than all of `bytes` it runs out. A sequence of such readers recognises the bytes of its
parts one after another, so a format is self-delimiting as soon as its fields are.
-/
import Mathlib.Algebra.Group.Nat.Defs
import RenderFold.Recorder.Bytes

namespace RenderFold

namespace Bytes

@[simp] theorem length_ofNat (n value : Nat) : (ofNat n value).length = n := by
  induction n generalizing value with
  | zero => rfl
  | succ n ih => rw [ofNat, List.length_cons, ih]

theorem toNat_ofNat (n value : Nat) : toNat (ofNat n value) = value % 256 ^ n := by
  induction n generalizing value with
  | zero => simp [ofNat, toNat, Nat.mod_one]
  | succ n ih =>
      have hlow : (UInt8.ofNat value).toNat = value % 256 := UInt8.toNat_ofNat'
      rw [ofNat, toNat, ih, hlow, Nat.pow_succ', Nat.mod_mul]

theorem toNat_ofNat_of_lt {n value : Nat} (h : value < 256 ^ n) : toNat (ofNat n value) = value :=
  (toNat_ofNat n value).trans (Nat.mod_eq_of_lt h)

end Bytes

namespace Recorder

namespace Reader

variable {α β : Type}

/-- A reader that takes exactly `bytes` and finds `a` in them. -/
structure Reads (r : Reader α) (bytes : Bytes) (a : α) : Prop where
  run_append : ∀ (rest : Bytes) (broken : Bool),
    r.run ⟨bytes ++ rest, broken⟩ = .ok (a, ⟨rest, broken⟩)
  run_take : ∀ (n : Nat) (broken : Bool), n < bytes.length →
    r.run ⟨bytes.take n, broken⟩ = .error (ByteSource.exhausted ⟨[], broken⟩)

theorem reads_pure (a : α) : Reads (pure a) [] a where
  run_append _ _ := rfl
  run_take _ _ hn := absurd hn (Nat.not_lt_zero _)

theorem Reads.bind {r : Reader α} {f : α → Reader β} {front back : Bytes} {a : α} {b : β}
    (hr : Reads r front a) (hf : Reads (f a) back b) : Reads (r >>= f) (front ++ back) b where
  run_append rest broken := by
    rw [StateT.run_bind, List.append_assoc, hr.run_append]
    exact hf.run_append rest broken
  run_take n broken hn := by
    rw [StateT.run_bind]
    by_cases hfront : n < front.length
    · -- the first reader already runs out
      rw [List.take_append_of_le_length (Nat.le_of_lt hfront), hr.run_take n broken hfront]
      rfl
    · have hback : n - front.length < back.length := by
        rw [List.length_append] at hn
        omega
      rw [List.take_append, List.take_of_length_le (Nat.not_lt.1 hfront), hr.run_append]
      exact hf.run_take _ broken hback

theorem Reads.map {r : Reader α} {bytes : Bytes} {a : α} (hr : Reads r bytes a) (f : α → β) :
    Reads (do return f (← r)) bytes (f a) := by
  have hbind : Reads (r >>= fun a => pure (f a)) (bytes ++ []) (f a) := hr.bind (reads_pure (f a))
  rwa [List.append_nil] at hbind

/-! ### Fields -/

theorem reads_take (bytes : Bytes) : Reads (take bytes.length) bytes bytes where
  run_append rest broken := by
    simp [StateT.run, take]
  run_take n broken hn := by
    have hshort : ((bytes.take n).take bytes.length).length ≠ bytes.length := by
      rw [List.length_take, List.length_take]
      omega
    simp only [StateT.run, take, if_neg hshort]
    rfl

theorem reads_number {n value : Nat} (h : value < 256 ^ n) :
    Reads (number n) (Bytes.ofNat n value) value := by
  have htake := (reads_take (Bytes.ofNat n value)).map Bytes.toNat
  rwa [Bytes.length_ofNat, Bytes.toNat_ofNat_of_lt h] at htake

theorem reads_flag (index : Nat) (coarse : Bool) :
    Reads (flag index) [if coarse then 1 else 0] coarse := by
  cases coarse with
  | false => exact (reads_number (show 0 < 256 ^ 1 by decide)).bind (reads_pure false)
  | true => exact (reads_number (show 1 < 256 ^ 1 by decide)).bind (reads_pure true)

end Reader

end Recorder

end RenderFold
