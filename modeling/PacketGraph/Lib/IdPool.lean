import Mathlib

namespace IdPool

open List

/-!
# Indices that are handed out and given back

Indices below a bound are either in use or free.  An index is handed out from
the free ones or by raising the bound, and given back to the free ones.
-/

/-- The free indices and those in use are distinct and below the bound. -/
structure Sound (bound : Nat) (free used : List Nat) : Prop where
  distinct : (free ++ used).Nodup
  below : ∀ id ∈ free ++ used, id < bound

variable {bound id : Nat} {free used : List Nat}

theorem Sound.empty : Sound 0 [] [] where
  distinct := nodup_nil
  below := fun _ member => absurd member not_mem_nil

theorem Sound.used_nodup (sound : Sound bound free used) : used.Nodup :=
  (nodup_append.mp sound.distinct).2.1

/-- The bound itself is handed out. -/
theorem Sound.takeNext (sound : Sound bound free used) :
    Sound (bound + 1) free (bound :: used) where
  distinct := by
    refine nodup_middle.mpr (nodup_cons.mpr ⟨?_, sound.distinct⟩)
    intro member
    exact Nat.lt_irrefl bound (sound.below bound member)
  below := by
    intro id member
    rcases mem_cons.mp (perm_middle.mem_iff.mp member) with
      isBound | old
    · exact isBound ▸ Nat.lt_succ_self bound
    · exact Nat.lt_succ_of_lt (sound.below id old)

/-- A free index is handed out. -/
theorem Sound.takeFree (sound : Sound bound (id :: free) used) : Sound bound free (id :: used) where
  distinct := nodup_middle.mpr sound.distinct
  below := fun other member => sound.below other (perm_middle.mem_iff.mp member)

/-- An index in use is given back. -/
theorem Sound.giveBack (sound : Sound bound free used) (isUsed : id ∈ used) :
    Sound bound (id :: free) (used.erase id) where
  distinct := by
    have permuted : (free ++ used).Perm (id :: free ++ used.erase id) :=
      (List.Perm.append_left free (perm_cons_erase isUsed)).trans perm_middle
    exact permuted.nodup_iff.mp sound.distinct
  below := by
    intro other member
    refine sound.below other ?_
    rcases mem_append.mp member with inFree | inUsed
    · rcases mem_cons.mp inFree with isId | old
      · exact mem_append_right free (isId ▸ isUsed)
      · exact mem_append_left used old
    · exact mem_append_right free (mem_of_mem_erase inUsed)

end IdPool
