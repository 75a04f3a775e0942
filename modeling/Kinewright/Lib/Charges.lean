import Mathlib.Algebra.Order.Ring.Nat
import Kinewright.Lib.KeyedMap

/-!
# Charges for shared buffers

A buffer is an identity with a size. It may be held several times, and it is charged once: when it is held for the first time its size
is added to the charge, and when nothing holds it any more its size is taken off.
-/

namespace Charges

open List KeyedMap

variable {κ : Type*} [DecidableEq κ]

/-- The sizes of the distinct buffers. -/
def total (held : List (κ × ℕ)) : ℕ := ∑ buffer ∈ held.toFinset, buffer.2

/-- How often a buffer of an identity is held. -/
def holders (held : List (κ × ℕ)) (id : κ) : ℕ := held.countP fun buffer => buffer.1 = id

/-- The counts and the charge are those of the buffers that are held. -/
structure Charged (held : List (κ × ℕ)) (counts : KeyedMap κ ℕ) (charge : ℕ) : Prop where
  counts : ∀ id, counts.get? id = if holders held id = 0 then none else some (holders held id)
  charge : charge = total held
  agree : ∀ buffer ∈ held, ∀ other ∈ held, buffer.1 = other.1 → buffer = other

variable {held held' : List (κ × ℕ)} {counts : KeyedMap κ ℕ} {charge : ℕ} {buffer : κ × ℕ}

theorem holders_cons (buffer : κ × ℕ) (held : List (κ × ℕ)) (id : κ) :
    holders (buffer :: held) id = holders held id + if buffer.1 = id then 1 else 0 := by
  rw [holders, countP_cons]
  simp only [decide_eq_true_eq]
  rfl

theorem holders_eq_zero {id : κ} : holders held id = 0 ↔ ∀ buffer ∈ held, buffer.1 ≠ id := by
  rw [holders]
  simp

theorem total_cons (buffer : κ × ℕ) (held : List (κ × ℕ)) :
    total (buffer :: held) = if buffer ∈ held then total held else total held + buffer.2 := by
  rw [total, toFinset_cons]
  split
  · rename_i hmem
    rw [Finset.insert_eq_of_mem (mem_toFinset.mpr hmem), total]
  · rename_i hnew
    rw [Finset.sum_insert (mt mem_toFinset.mp hnew), total, Nat.add_comm]

theorem charged_nil : Charged ([] : List (κ × ℕ)) .empty 0 := ⟨fun _ => rfl, rfl, fun _ h => absurd h not_mem_nil⟩

section

variable (h : Charged held counts charge)

include h

theorem Charged.perm (hperm : held.Perm held') : Charged held' counts charge where
  counts id := by
    have hsame : holders held id = holders held' id := hperm.countP_eq _
    rw [h.counts, hsame]
  charge := by rw [h.charge, total, total, toFinset_eq_of_perm _ _ hperm]
  agree b hb b' hb' := h.agree b (hperm.mem_iff.mpr hb) b' (hperm.mem_iff.mpr hb')

theorem Charged.get?_getD (id : κ) : (counts.get? id).getD 0 = holders held id := by
  rw [h.counts]
  split
  · rename_i hnone
    exact hnone.symm
  · rfl

/-- A buffer is held once more. -/
theorem Charged.retain (hagree : ∀ other ∈ held, other.1 = buffer.1 → other = buffer) :
    Charged (buffer :: held) (counts.insert buffer.1 (holders held buffer.1 + 1))
      (if holders held buffer.1 + 1 = 1 then charge + buffer.2 else charge) where
  counts id := by
    rw [get?_insert, holders_cons, h.counts]
    by_cases hid : buffer.1 = id
    · subst hid
      simp
    · simp [hid, Ne.symm hid]
  charge := by
    rw [total_cons, h.charge]
    by_cases hnone : holders held buffer.1 = 0
    · have hnew : buffer ∉ held := fun hmem => holders_eq_zero.mp hnone buffer hmem rfl
      rw [if_pos (by omega), if_neg hnew]
    · have hmem : buffer ∈ held := by
        by_contra hnew
        refine hnone (holders_eq_zero.mpr fun other hother hid => hnew ?_)
        exact hagree other hother hid ▸ hother
      rw [if_neg (by omega), if_pos hmem]
  agree b hb b' hb' hid := by
    rcases mem_cons.mp hb with rfl | hmem
    · rcases mem_cons.mp hb' with rfl | hmem'
      · rfl
      · exact (hagree b' hmem' hid.symm).symm
    · rcases mem_cons.mp hb' with rfl | hmem'
      · exact hagree b hmem hid
      · exact h.agree b hmem b' hmem' hid

end

/-- A buffer is held once less. -/
theorem Charged.release (h : Charged (buffer :: held) counts charge) : counts.get? buffer.1 = some (holders held buffer.1 + 1) ∧
    Charged held (if holders held buffer.1 = 0 then counts.erase buffer.1 else counts.insert buffer.1 (holders held buffer.1))
      (if holders held buffer.1 = 0 then charge - buffer.2 else charge) := by
  have hagree := h.agree buffer mem_cons_self
  refine ⟨?_, ⟨fun id => ?_, ?_, fun b hb b' hb' => h.agree b (mem_cons_of_mem _ hb) b' (mem_cons_of_mem _ hb')⟩⟩
  · rw [h.counts, holders_cons]
    simp
  · have hcount := h.counts id
    rw [holders_cons] at hcount
    by_cases hid : buffer.1 = id
    · subst hid
      split
      · rw [get?_erase, if_pos rfl]
      · rw [get?_insert, if_pos rfl]
    · rw [if_neg hid, Nat.add_zero] at hcount
      split
      · rw [get?_erase, if_neg (Ne.symm hid), hcount]
      · rw [get?_insert, if_neg (Ne.symm hid), hcount]
  · have hcharge := h.charge
    rw [total_cons] at hcharge
    by_cases hnone : holders held buffer.1 = 0
    · have hnew : buffer ∉ held := fun hmem => holders_eq_zero.mp hnone buffer hmem rfl
      rw [if_neg hnew] at hcharge
      rw [if_pos hnone]
      omega
    · have hmem : buffer ∈ held := by
        by_contra hnew
        refine hnone (holders_eq_zero.mpr fun other hother hid => hnew ?_)
        exact hagree other (mem_cons_of_mem _ hother) hid.symm ▸ hother
      rw [if_pos hmem] at hcharge
      rw [if_neg hnone, hcharge]

end Charges
