import Mathlib

/-!
# Memory, and lists threaded through it

A memory maps addresses to bytes.  Words of `n` bytes are stored with the lowest byte
first; what has been stored is loaded again (`load_store_self`), and a store changes
nothing outside the bytes it covers (`load_store_of_apart`).

`Linked m p blocks` says that the list which starts at `p` visits `blocks` in this order,
where the first word of each block is the address of the next one, and 0 ends the list.
It depends on these words only (`Linked.congr`).
-/

/-- Bytes by address. -/
abbrev Memory := ℕ → UInt8

namespace Memory

/-- The number in the `n` bytes from `p` on. -/
def loadBytes (m : Memory) (p : ℕ) : ℕ → ℕ
  | 0 => 0
  | n + 1 => (m p).toNat + 256 * loadBytes m (p + 1) n

/-- A number put into the `n` bytes from `p` on. -/
def storeBytes (m : Memory) (p v : ℕ) : ℕ → Memory
  | 0 => m
  | n + 1 => storeBytes (Function.update m p (UInt8.ofNat v)) (p + 1) (v / 256) n

/-- The number of bytes in a pointer. -/
def wordBytes : ℕ := 8

/-- The word at `p`. -/
def load (m : Memory) (p : ℕ) : ℕ := loadBytes m p wordBytes

/-- A word put at `p`. -/
def store (m : Memory) (p v : ℕ) : Memory := storeBytes m p v wordBytes

theorem loadBytes_congr {m m' : Memory} {p n : ℕ} (h : ∀ a, p ≤ a → a < p + n → m' a = m a) :
    loadBytes m' p n = loadBytes m p n := by
  induction n generalizing p with
  | zero => rfl
  | succ n ih =>
      rw [loadBytes, loadBytes, h p (le_refl p) (by omega)]
      rw [ih fun a hlow hhigh => h a (by omega) (by omega)]

theorem storeBytes_of_outside {m : Memory} {p v n a : ℕ} (h : a < p ∨ p + n ≤ a) :
    storeBytes m p v n a = m a := by
  induction n generalizing m p v with
  | zero => rfl
  | succ n ih =>
      rw [storeBytes, ih (by omega), Function.update_of_ne (by omega)]

theorem loadBytes_storeBytes_self (m : Memory) (p v n : ℕ) :
    loadBytes (storeBytes m p v n) p n = v % 256 ^ n := by
  induction n generalizing m p v with
  | zero => simp [loadBytes, Nat.mod_one]
  | succ n ih =>
      have hfirst : storeBytes m p v (n + 1) p = UInt8.ofNat v := by
        rw [storeBytes, storeBytes_of_outside (by omega), Function.update_self]
      have hbyte : (UInt8.ofNat v).toNat = v % 256 := by simp
      rw [loadBytes, hfirst, hbyte, storeBytes, ih, Nat.pow_succ', Nat.mod_mul]

/-- A word depends on its bytes only. -/
theorem load_congr {m m' : Memory} {p : ℕ} (h : ∀ a, p ≤ a → a < p + wordBytes → m' a = m a) :
    m'.load p = m.load p := loadBytes_congr h

/-- A word that has been stored is loaded again. -/
theorem load_store_self (m : Memory) (p : ℕ) {v : ℕ} (hv : v < 2 ^ 64) :
    (m.store p v).load p = v := by
  rw [load, store, loadBytes_storeBytes_self]
  exact Nat.mod_eq_of_lt hv

theorem store_of_outside {m : Memory} {p v a : ℕ} (h : a < p ∨ p + wordBytes ≤ a) :
    m.store p v a = m a := storeBytes_of_outside h

/-- A store does not touch the words apart from it. -/
theorem load_store_of_apart {m : Memory} {p q v : ℕ}
    (h : p + wordBytes ≤ q ∨ q + wordBytes ≤ p) : (m.store p v).load q = m.load q := by
  refine load_congr fun a hlow hhigh => store_of_outside ?_
  omega

/-- Writing one byte does not touch the words that it does not lie in. -/
theorem load_update_of_outside {m : Memory} {q a : ℕ} {x : UInt8}
    (h : a < q ∨ q + wordBytes ≤ a) : load (Function.update m a x) q = m.load q := by
  refine load_congr fun b hlow hhigh => Function.update_of_ne ?_ _ _
  omega

-- from here on words are known by these laws only
attribute [irreducible] load store

/-! ## Lists in memory -/

/-- The list that starts at `p` visits `blocks` and ends. -/
def Linked (m : Memory) : ℕ → List ℕ → Prop
  | p, [] => p = 0
  | p, block :: rest => p = block ∧ block ≠ 0 ∧ Linked m (m.load block) rest

theorem Linked.congr {m m' : Memory} {p : ℕ} {blocks : List ℕ} (h : Linked m p blocks)
    (hsame : ∀ block ∈ blocks, m'.load block = m.load block) : Linked m' p blocks := by
  induction blocks generalizing p with
  | nil => exact h
  | cons block rest ih =>
      obtain ⟨hp, hnonzero, hrest⟩ := h
      refine ⟨hp, hnonzero, ?_⟩
      rw [hsame block List.mem_cons_self]
      exact ih hrest fun b hb => hsame b (List.mem_cons_of_mem _ hb)

/-- A block is put in front of a list by storing the address of the list in it. -/
theorem Linked.store {m : Memory} {p block : ℕ} {blocks : List ℕ} (h : Linked m p blocks)
    (hp : p < 2 ^ 64) (hnonzero : block ≠ 0)
    (hapart : ∀ other ∈ blocks, block + wordBytes ≤ other ∨ other + wordBytes ≤ block) :
    Linked (m.store block p) block (block :: blocks) := by
  refine ⟨rfl, hnonzero, ?_⟩
  rw [load_store_self m block hp]
  exact h.congr fun other hother => load_store_of_apart (hapart other hother)

end Memory
