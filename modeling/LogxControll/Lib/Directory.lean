/-
  A directory of objects that carry their own names: `name` is what an object is called now,
  `entry` the object registered under a name.

  The two agree (`Agrees`) when everything registered is called as it is registered. Then no two
  registered objects are called the same, and each is found by its name (`Resolvable`). Registering
  an object under its free name and renaming what is not registered keep the agreement; giving a
  registered object another name ends it at once (`not_resolvable_of_rename`).
-/
import Mathlib.Logic.Function.Basic

namespace Directory

universe u v

variable {ι : Type u} {κ : Type v} {name : ι → Option κ} {entry : κ → Option ι}

/-- There is a name that an object is registered under. -/
def Registered (entry : κ → Option ι) (x : ι) : Prop := ∃ n, entry n = some x

/-- What is registered under a name is called so. -/
def Agrees (name : ι → Option κ) (entry : κ → Option ι) : Prop :=
  ∀ n x, entry n = some x → name x = some n

/-- Every registered object is found by what it is called, and no two are called the same. -/
structure Resolvable (name : ι → Option κ) (entry : κ → Option ι) : Prop where
  found : ∀ x, Registered entry x → ∃ n, name x = some n ∧ entry n = some x
  different : ∀ x y, Registered entry x → Registered entry y → x ≠ y → name x ≠ name y

theorem agrees_empty : Agrees name fun _ => none := by
  intro n x h
  cases h

theorem Agrees.resolvable (h : Agrees name entry) : Resolvable name entry where
  found := by
    rintro x ⟨n, hn⟩
    exact ⟨n, h n x hn, hn⟩
  different := by
    rintro x y ⟨n, hn⟩ ⟨m, hm⟩ hne he
    rw [h n x hn, h m y hm, Option.some.injEq] at he
    subst he
    exact hne (Option.some.inj (hn.symm.trans hm))

theorem Agrees.register [DecidableEq κ] (h : Agrees name entry) {x : ι} {n : κ} (hx : name x = some n) :
    Agrees name (Function.update entry n (some x)) := by
  intro m y hm
  by_cases he : m = n
  · subst he
    rw [Function.update_self] at hm
    exact Option.some.inj hm ▸ hx
  · rw [Function.update_of_ne he] at hm
    exact h m y hm

/-- A name that changes nothing for the registered objects. -/
theorem Agrees.rename [DecidableEq ι] (h : Agrees name entry) {x : ι} {n : κ}
    (hx : Registered entry x → name x = some n) :
    Agrees (Function.update name x (some n)) entry := by
  intro m y hm
  by_cases he : y = x
  · subst he
    rw [Function.update_self, ← hx ⟨m, hm⟩]
    exact h m y hm
  · rw [Function.update_of_ne he]
    exact h m y hm

/-- What stands under the new name of a registered object is another object, or nothing. -/
theorem not_resolvable_of_rename [DecidableEq ι] (h : Agrees name entry) {x : ι}
    (hx : Registered entry x) {n : κ} (hne : name x ≠ some n) :
    ¬ Resolvable (Function.update name x (some n)) entry := by
  intro hres
  obtain ⟨m, hm, hentry⟩ := hres.found x hx
  rw [Function.update_self, Option.some.injEq] at hm
  subst hm
  exact hne (h n x hentry)

end Directory
