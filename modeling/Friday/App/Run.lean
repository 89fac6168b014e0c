import Friday.App.World

/-! # Keeper code run against the shared state

`runOn` runs a goroutine's code against the `World` alone, to its value or its
panic; on a state's own multistore, `Get` and `Set` reach the store's listing at
once (`runOn_kvGet`, `runOn_kvSet`). The keepers' specifications are stated with it.
-/

namespace Friday.App

open Friday.Types Store Script

section Run

variable {α β : Type} (w : World)

/-- A run of keeper code against the shared state, to its value or its panic. -/
def runOn (p : Go α) : Option (Except Panic α × World) := runWith World.answer p.run w

variable {w}

theorem runOn_bind (p : Go α) (f : α → Go β) :
    runOn w (p >>= f) = (runOn w p).bind fun r => match r.1 with
      | .ok a => runOn r.2 (f a)
      | .error e => some (.error e, r.2) := by
  simp only [runOn, ExceptT.run_bind, runWith_bind]
  congr 1
  funext r
  obtain ⟨r, w'⟩ := r
  cases r <;> rfl

@[simp] theorem runOn_pure (a : α) : runOn w (pure a : Go α) = some (.ok a, w) := rfl

@[simp] theorem runOn_throw (p : Panic) : runOn w (throw p : Go α) = some (.error p, w) := rfl

@[simp] theorem runOn_liftExcept (x : Except Panic α) : runOn w (liftExcept x : Go α) = some (x, w) := by
  cases x <;> rfl

theorem runOn_mapM {f : α → Go β} {g : α → β} :
    ∀ (l : List α), (∀ a ∈ l, f a = (pure (g a) : Go β)) → runOn w (l.mapM f) = some (.ok (l.map g), w)
  | [], _ => rfl
  | a :: l, hf => by
    have ha : f a = (pure (g a) : Go β) := hf a List.mem_cons_self
    have hl := runOn_mapM l fun b hb => hf b (List.mem_cons_of_mem a hb)
    simp only [List.mapM_cons, runOn_bind, ha, runOn_pure, Option.bind_some, hl, List.map_cons]

variable {ctx : Context} {root : Root}

theorem runOn_kvGet (hroot : ctx.multiStore = .root root) (name : StoreName) (key : List UInt8) :
    runOn w (kvGet ctx name key) = some (.ok (sortedStore.get (w.stores root name) key), w) := by
  obtain ⟨ms, _, _, _, _⟩ := ctx
  dsimp only at hroot
  subst hroot
  rfl

theorem runOn_kvSet (hroot : ctx.multiStore = .root root) (name : StoreName) (key : List UInt8) (value : Value) :
    runOn w (kvSet ctx name key value) = some (.ok (), w.set (.root root) name key value) := by
  obtain ⟨ms, _, _, _, _⟩ := ctx
  dsimp only at hroot
  subst hroot
  rfl

theorem runOn_iterator (root : Root) (name : StoreName) (start endKey : Option (List UInt8)) :
    runOn w (Go.call (.iterator root name start endKey)) =
      some (.ok (sortedStore.iterator (w.stores root name) start endKey), w) := rfl

end Run

theorem World.get_stores (w : World) (store : StoreRef) (name : StoreName) (key : List UInt8) :
    (w.get store name key).1.stores = w.stores := by
  induction store generalizing w with
  | root root => rfl
  | cache parent tag ih =>
    simp only [World.get]
    split
    · rfl
    · exact ih w

theorem World.answer_get (w : World) (store : StoreRef) (name : StoreName) (key : List UInt8) :
    World.answer (.get store name key) w = some ((w.get store name key).2, (w.get store name key).1) := rfl

theorem World.answer_set (w : World) (store : StoreRef) (name : StoreName) (key : List UInt8) (value : Value) :
    World.answer (.set store name key value) w = some ((), w.set store name key value) := rfl

theorem World.set_root_stores (w : World) (root : Root) (name : StoreName) (key : List UInt8) (value : Value) :
    (w.set (.root root) name key value).stores root name = sortedStore.set (w.stores root name) key value := by
  simp [World.set, World.setListing]

end Friday.App
