import Mathlib.Logic.Function.Basic

/-! # Write-back overlays

A write-back cache sits in front of a store and holds writes back: a write is a
pending update of one key (`some v` sets it, `none` deletes it), a read sees the
pending update of its key or else the store beneath, and a flush applies every
pending update to the store and forgets them. This module is that behaviour as a
plain state over two maps, the specification that an implementation of such a
cache refines.

The lemmas say how reads see writes and flushes, and that a flush changes the
store only at keys with a pending update.
-/

/-- A store `base` under the pending updates `pending`. -/
@[ext] structure WriteBack (K V : Type*) where
  base : K → Option V
  pending : K → Option (Option V)

namespace WriteBack

variable {K V : Type*}

/-- A store with nothing pending. -/
def clean (base : K → Option V) : WriteBack K V := ⟨base, fun _ => none⟩

/-- What a read sees. -/
def read (w : WriteBack K V) (k : K) : Option V := (w.pending k).getD (w.base k)

/-- Apply the pending updates to the store. -/
def flush (w : WriteBack K V) : WriteBack K V := clean w.read

@[simp] theorem read_clean (base : K → Option V) : (clean base).read = base := rfl

@[simp] theorem read_flush (w : WriteBack K V) : w.flush.read = w.read := rfl

@[simp] theorem base_flush (w : WriteBack K V) : w.flush.base = w.read := rfl

@[simp] theorem pending_flush (w : WriteBack K V) (k : K) : w.flush.pending k = none := rfl

variable [DecidableEq K]

/-- Hold a write of `o` at `k`. -/
def put (w : WriteBack K V) (k : K) (o : Option V) : WriteBack K V :=
  { w with pending := Function.update w.pending k (some o) }

@[simp] theorem read_put (w : WriteBack K V) (k : K) (o : Option V) :
    (w.put k o).read = Function.update w.read k o := by
  funext k'
  by_cases h : k' = k
  · subst h
    simp [read, put]
  · simp [read, put, h]

end WriteBack
