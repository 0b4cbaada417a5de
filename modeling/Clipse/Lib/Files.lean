import Mathlib.Data.List.Basic
import Mathlib.Logic.Function.Basic

/-!
# Files that are written while they are open

A name leads to a file, and a file stays what it is while its name changes: who has it open goes on
writing to it, at an offset of his own. Files are numbers here, given out once.

* `create` empties the file that has the name, or makes one; `writeAt` writes to an open file;
  `rename` puts a file in the place of another; `remove` takes its name away.
* `dir_…` and `read_…`: which file a name leads to, and what it holds, after each of them. A name sees
  nothing of what is done to another (`read_writeAt_of_ne` rests on there being no hard links).
-/

structure Files (N : Type) where
  dir : N → Option Nat
  data : Nat → List UInt8
  next : Nat
  fresh : ∀ {n i}, dir n = some i → i < next
  /-- There are no hard links. -/
  unlinked : ∀ {m n i}, dir m = some i → dir n = some i → m = n

namespace Files

variable {N : Type} [DecidableEq N]

omit [DecidableEq N] in
def empty : Files N :=
  { dir := fun _ => none, data := fun _ => [], next := 0, fresh := nofun, unlinked := nofun }

omit [DecidableEq N] in
def isFile (f : Files N) (n : N) : Bool := (f.dir n).isSome

omit [DecidableEq N] in
def read (f : Files N) (n : N) : Option (List UInt8) := (f.dir n).map f.data

/-- `bytes` from the offset on; a gap before it reads as zeros. -/
def overwrite (old : List UInt8) (offset : Nat) (bytes : List UInt8) : List UInt8 :=
  old.take offset ++ List.replicate (offset - old.length) 0 ++ bytes ++
    old.drop (offset + bytes.length)

theorem overwrite_length (old bytes : List UInt8) : overwrite old old.length bytes = old ++ bytes := by
  simp [overwrite]

/-- Let the name lead to a file that has no other name, or to none. -/
def relink (f : Files N) (n : N) (o : Option Nat) (hlt : ∀ i, o = some i → i < f.next)
    (hone : ∀ i, o = some i → ∀ m, m ≠ n → f.dir m ≠ some i) : Files N :=
  { f with
    dir := Function.update f.dir n o
    fresh := by
      intro m i hm
      by_cases he : m = n
      · rw [he, Function.update_self] at hm
        exact hlt i hm
      · rw [Function.update_of_ne he] at hm
        exact f.fresh hm
    unlinked := by
      intro m m' i hm hm'
      by_cases he : m = n <;> by_cases he' : m' = n
      · rw [he, he']
      · rw [he, Function.update_self] at hm
        rw [Function.update_of_ne he'] at hm'
        exact absurd hm' (hone i hm m' he')
      · rw [he', Function.update_self] at hm'
        rw [Function.update_of_ne he] at hm
        exact absurd hm (hone i hm' m he)
      · rw [Function.update_of_ne he] at hm
        rw [Function.update_of_ne he'] at hm'
        exact f.unlinked hm hm' }

/-- Open for writing, truncated. -/
def create (f : Files N) (n : N) : Nat × Files N :=
  match f.dir n with
  | some i => (i, { f with data := Function.update f.data i [] })
  | none =>
    let f' : Files N :=
      { f with
        data := Function.update f.data f.next []
        next := f.next + 1
        fresh := fun h => Nat.lt_succ_of_lt (f.fresh h) }
    (f.next, f'.relink n (some f.next) (fun _ h => Option.some.inj h ▸ Nat.lt_succ_self _)
      fun _ h _ _ hm => absurd (f.fresh hm) (Option.some.inj h ▸ Nat.lt_irrefl _))

omit [DecidableEq N] in
/-- Write to the open file `i`. -/
def writeAt (f : Files N) (i offset : Nat) (bytes : List UInt8) : Files N :=
  { f with data := Function.update f.data i (overwrite (f.data i) offset bytes) }

def remove (f : Files N) (n : N) : Files N := f.relink n none nofun nofun

theorem dir_remove_self (f : Files N) (n : N) : (f.remove n).dir n = none :=
  Function.update_self _ _ _

theorem dir_remove_of_ne {f : Files N} {m n : N} (h : m ≠ n) : (f.remove n).dir m = f.dir m :=
  Function.update_of_ne h _ _

theorem dir_remove_ne {f : Files N} {n : N} {i : Nat} (h : f.dir n = some i) (m : N) :
    (f.remove n).dir m ≠ some i := by
  intro hm
  by_cases he : m = n
  · rw [he, dir_remove_self] at hm
    cases hm
  · rw [dir_remove_of_ne he] at hm
    exact he (f.unlinked hm h)

/-- `none` if there is no file to rename. -/
def rename (f : Files N) (a b : N) : Option (Files N) :=
  match h : f.dir a with
  | none => none
  | some i =>
    some ((f.remove a).relink b (some i) (fun _ hi => Option.some.inj hi ▸ f.fresh h)
      fun _ hi m _ => Option.some.inj hi ▸ dir_remove_ne h m)

/-! ## What a name leads to -/

variable {f f' : Files N} {a b m n : N} {i offset : Nat} {bytes : List UInt8}

omit [DecidableEq N] in
theorem isFile_eq (f : Files N) (n : N) : f.isFile n = (f.read n).isSome := by
  rw [read, Option.isSome_map, isFile]

omit [DecidableEq N] in
theorem isFile_iff : f.isFile n ↔ ∃ bytes, f.read n = some bytes := by
  rw [isFile_eq, Option.isSome_iff_exists]

theorem dir_create_self (f : Files N) (n : N) : (f.create n).2.dir n = some (f.create n).1 := by
  unfold create
  split
  next h => exact h
  next => exact Function.update_self _ _ _

theorem dir_create_of_ne (h : m ≠ n) : (f.create n).2.dir m = f.dir m := by
  unfold create
  split
  · rfl
  · exact Function.update_of_ne h _ _

theorem read_create_self (f : Files N) (n : N) : (f.create n).2.read n = some [] := by
  rw [read, dir_create_self, Option.map_some]
  unfold create
  split <;> exact congrArg some (Function.update_self _ _ _)

theorem read_create_of_ne (h : m ≠ n) : (f.create n).2.read m = f.read m := by
  rw [read, dir_create_of_ne h, read]
  refine Option.map_congr fun i hi => ?_
  unfold create
  split
  next j hj =>
    refine Function.update_of_ne (fun he => h ?_) _ _
    exact f.unlinked hi (he ▸ hj)
  next =>
    have hlt := f.fresh hi
    exact Function.update_of_ne (by omega) _ _

omit [DecidableEq N] in
@[simp] theorem dir_writeAt (f : Files N) (i offset : Nat) (bytes : List UInt8) :
    (f.writeAt i offset bytes).dir = f.dir := rfl

omit [DecidableEq N] in
theorem read_writeAt_self (h : f.dir n = some i) :
    (f.writeAt i offset bytes).read n = (f.read n).map (overwrite · offset bytes) := by
  rw [read, read, dir_writeAt, h]
  exact congrArg some (Function.update_self _ _ _)

omit [DecidableEq N] in
theorem read_writeAt_of_ne (hn : f.dir n = some i) (h : m ≠ n) :
    (f.writeAt i offset bytes).read m = f.read m := by
  rw [read, read, dir_writeAt]
  refine Option.map_congr fun j hj => Function.update_of_ne (fun he => h ?_) _ _
  exact f.unlinked hj (he ▸ hn)

theorem read_remove_self (f : Files N) (n : N) : (f.remove n).read n = none := by
  rw [read, dir_remove_self, Option.map_none]

theorem read_remove_of_ne (h : m ≠ n) : (f.remove n).read m = f.read m := by
  rw [read, dir_remove_of_ne h]
  rfl

theorem rename_eq_none : f.rename a b = none ↔ f.read a = none := by
  rw [read, Option.map_eq_none_iff]
  unfold rename
  split
  next h => exact iff_of_true rfl h
  next i h => simp [h]

theorem dir_rename_of_ne (hr : f.rename a b = some f') (ha : m ≠ a) (hb : m ≠ b) :
    f'.dir m = f.dir m := by
  unfold rename at hr
  split at hr
  · cases hr
  · cases hr
    exact (Function.update_of_ne hb _ _).trans (dir_remove_of_ne ha)

theorem read_rename_self (hr : f.rename a b = some f') : f'.read b = f.read a := by
  unfold rename at hr
  split at hr
  next => cases hr
  next i hi =>
    cases hr
    have hself : Function.update (f.remove a).dir b (some i) b = some i := Function.update_self _ _ _
    calc (Function.update (f.remove a).dir b (some i) b).map f.data
        = some (f.data i) := by rw [hself, Option.map_some]
      _ = f.read a := by rw [read, hi, Option.map_some]

theorem read_rename_of_ne (hr : f.rename a b = some f') (ha : m ≠ a) (hb : m ≠ b) :
    f'.read m = f.read m := by
  have hdata : f'.data = f.data := by
    unfold rename at hr
    split at hr
    · cases hr
    · cases hr
      rfl
  rw [read, read, dir_rename_of_ne hr ha hb, hdata]

end Files
