/-
What a hash table is for: entries, in the order they were added.

A call serves the first entry that meets its key, so two entries with one key are served in
the order they came, and a removal uncovers the later one.  The entries are a list, and a run
of calls is a run on that list; no array and no chain has a part in it.

What counts as the same key is a parameter.  `Meets` is what the table takes for the same key:
the same bucket, and the same first 50 characters.  `Owns` is the key itself, which is what a
caller means.  Where the two say the same about the keys in use, the table serves every key on
its own; keys that differ from each other but meet are served in each other's place.
-/
import CmakeTemplate.HashTable
import CmakeTemplate.Lib.Buckets

namespace CmakeTemplate

open Lib

variable {α : Type}

/-- The entry was added under this key. -/
def Owns (key : CString) (e : CString × α) : Bool := e.1 = key

/-- The table finds this entry for the key. -/
def Meets (z : TableSize) (key : CString) (e : CString × α) : Bool :=
  bucket z e.1 = bucket z key ∧ e.1.take maxLength = key.take maxLength

/-- One call on the entries; `meets` is what counts as the same key. -/
def entriesExec (meets : CString → CString × α → Bool) (es : List (CString × α)) :
    HashOp α → List (CString × α)
  | .add key data calloc => if calloc then es ++ [(key, data)] else es
  | .remove key => es.eraseP (meets key)
  | .lookup _ => es
  | .clear => []

def entriesRun (meets : CString → CString × α → Bool) (es : List (CString × α)) :
    List (HashOp α) → List (CString × α) :=
  List.foldl (entriesExec meets) es

/-- The keys of a run. -/
def KeysIn (K : CString → Prop) (ops : List (HashOp α)) : Prop :=
  ∀ op ∈ ops, ∀ key, op.key? = some key → K key

/-- No two of the keys have their first 50 characters and their bucket in common. -/
def Separated (z : TableSize) (K : CString → Prop) : Prop :=
  ∀ k k', K k → K k' → bucket z k = bucket z k' → k.take maxLength = k'.take maxLength → k = k'

/-! ### Separated keys

Keys that meet only where they are the same.  On these a run with the one notion of a key is a
run with the other.
-/

theorem Separated.meets {z : TableSize} {K : CString → Prop} (h : Separated z K) {key : CString}
    {e : CString × α} (hkey : K key) (he : K e.1) : Meets z key e = Owns key e := by
  rw [Meets, Owns, decide_eq_decide]
  exact ⟨fun hm => h _ _ he hkey hm.1 hm.2, fun hk => hk ▸ ⟨rfl, rfl⟩⟩

/-- Keys that are compared whole. -/
theorem separated_of_short (z : TableSize) : Separated z fun k => k.chars.length ≤ maxLength := by
  intro k k' hk hk' _ htake
  rwa [CString.take_of_le hk, CString.take_of_le hk'] at htake

theorem entriesExec_keys {K : CString → Prop} {meets : CString → CString × α → Bool}
    {es : List (CString × α)} {op : HashOp α} (hop : ∀ key, op.key? = some key → K key)
    (hes : ∀ e ∈ es, K e.1) : ∀ e ∈ entriesExec meets es op, K e.1 := by
  cases op with
  | add key data calloc =>
      intro e he
      cases calloc with
      | true =>
          rcases List.mem_append.mp he with he | he
          · exact hes e he
          · rw [List.mem_singleton.mp he]
            exact hop key rfl
      | false => exact hes e he
  | remove key => exact fun e he => hes e (List.mem_of_mem_eraseP he)
  | lookup key => exact hes
  | clear => exact fun e he => absurd he List.not_mem_nil

theorem entriesRun_keys {K : CString → Prop} {meets : CString → CString × α → Bool}
    {es : List (CString × α)} {ops : List (HashOp α)} (hops : KeysIn K ops)
    (hes : ∀ e ∈ es, K e.1) : ∀ e ∈ entriesRun meets es ops, K e.1 := by
  induction ops generalizing es with
  | nil => exact hes
  | cons op ops ih =>
      exact ih (fun o ho => hops o (List.mem_cons_of_mem _ ho))
        (entriesExec_keys (hops op List.mem_cons_self) hes)

/-- On separated keys the table serves every key on its own. -/
theorem entriesRun_owns {z : TableSize} {K : CString → Prop} (hK : Separated z K)
    {es : List (CString × α)} {ops : List (HashOp α)} (hops : KeysIn K ops)
    (hes : ∀ e ∈ es, K e.1) : entriesRun (Meets z) es ops = entriesRun Owns es ops := by
  induction ops generalizing es with
  | nil => rfl
  | cons op ops ih =>
      have hop := hops op List.mem_cons_self
      have hone : entriesExec (Meets z) es op = entriesExec Owns es op := by
        cases op with
        | remove key => exact eraseP_congr fun e he => hK.meets (hop key rfl) (hes e he)
        | _ => rfl
      show entriesRun (Meets z) (entriesExec (Meets z) es op) ops = _
      rw [hone]
      exact ih (fun o ho => hops o (List.mem_cons_of_mem _ ho)) (entriesExec_keys hop hes)

/-! ### Other keys

Whatever the keys, an entry was added before it is found, and a removal takes an entry of its
own key.
-/

/-- An entry that is there was added. -/
theorem added_of_mem {meets : CString → CString × α → Bool} {es : List (CString × α)}
    {ops : List (HashOp α)} {e : CString × α} (he : e ∈ entriesRun meets es ops) :
    e ∈ es ∨ .add e.1 e.2 true ∈ ops := by
  induction ops generalizing es with
  | nil => exact .inl he
  | cons op ops ih =>
      rcases ih he with he | he
      · cases op with
        | add key data calloc =>
            cases calloc with
            | true =>
                rcases List.mem_append.mp he with he | he
                · exact .inl he
                · rw [List.mem_singleton.mp he]
                  exact .inr List.mem_cons_self
            | false => exact .inl he
        | remove key => exact .inl (List.mem_of_mem_eraseP he)
        | lookup key => exact .inl he
        | clear => exact absurd he List.not_mem_nil
      · exact .inr (List.mem_cons_of_mem _ he)

/-- What is found for one key does not depend on the removal of another. -/
theorem find_eraseP_owns {key key' : CString} (h : key ≠ key') (es : List (CString × α)) :
    (es.eraseP (Owns key)).find? (Owns key') = es.find? (Owns key') := by
  induction es with
  | nil => rfl
  | cons e es ih =>
      by_cases he : e.1 = key
      · simp [Owns, he, h]
      · rw [List.eraseP_cons_of_neg (by simpa [Owns] using he), List.find?_cons, List.find?_cons, ih]

end CmakeTemplate
