import CardSearch.VersionSet.Basic
import Mathlib.Data.List.Range

/-!
# Reading and writing ranges of memory

What stands in a range after a write, and that everything else stays as it was. A change is local
to a range if it leaves the cells outside the range and the counters alone.
-/

namespace CardSearch

structure Region where
  offset : Nat
  length : Nat
  deriving DecidableEq

namespace Region

def Contains (r : Region) (i : Nat) : Prop := r.offset ≤ i ∧ i < r.offset + r.length

def Apart (r t : Region) : Prop := r.offset + r.length ≤ t.offset ∨ t.offset + t.length ≤ r.offset

theorem Apart.symm {r t : Region} (h : r.Apart t) : t.Apart r := Or.symm h

theorem Apart.not_contains {r t : Region} (h : r.Apart t) {i : Nat} (hi : t.Contains i) :
    ¬ r.Contains i := by
  unfold Apart Contains at *
  omega

end Region

namespace Memory

variable {α : Type} {m m' m'' : Memory α} {r t : Region} {offset count i : Nat}

def size (m : Memory α) : Nat := m.cells.size

@[simp] theorem size_write (m : Memory α) (i : Nat) (a : α) : (m.write i a).size = m.size := by
  simp [size, write]

@[simp] theorem arena_write (m : Memory α) (i : Nat) (a : α) : (m.write i a).arena = m.arena := by
  simp [arena, write]

/-- Handing out fails as taking the slots does, and otherwise gives the first free ones. -/
theorem alloc_cases (h : m.used ≤ m.size) (count : Nat) :
    (∃ e, m.arena.take count = .error e ∧ m.alloc count = .error e) ∨
    m.used + count ≤ m.size ∧ m.arena.take count = .ok { m.arena with used := m.used + count } ∧
      m.alloc count = .ok (m.used, { m with used := m.used + count }) := by
  have halloc : m.alloc count =
      (m.arena.take count).map (fun arena => (m.used, { m with used := arena.used })) := by
    rw [alloc]
    cases m.arena.take count <;> rfl
  rw [halloc]
  unfold Arena.take Arena.available
  split
  · exact .inl ⟨_, rfl, rfl⟩
  · next hroom =>
    refine .inr ⟨?_, rfl, rfl⟩
    have hroom : ¬ m.size - m.used < count := hroom
    omega

variable [Inhabited α]

theorem read_write (m : Memory α) {i : Nat} (h : i < m.size) (a : α) (j : Nat) :
    (m.write i a).read j = if j = i then a else m.read j := by
  unfold size at h
  rw [read, write, Array.getElem?_setIfInBounds]
  grind [read]

theorem read_write_self (m : Memory α) (h : i < m.size) (a : α) : (m.write i a).read i = a := by
  simp [read_write m h]

theorem read_write_of_ne (m : Memory α) {i j : Nat} (h : j ≠ i) (a : α) :
    (m.write i a).read j = m.read j := by
  rw [read, write, Array.getElem?_setIfInBounds, if_neg h.symm, read]

@[simp] theorem length_window (m : Memory α) (offset count : Nat) :
    (m.window offset count).length = count := by
  simp [window]

theorem getElem?_window (m : Memory α) (offset : Nat) (h : i < count) :
    (m.window offset count)[i]? = some (m.read (offset + i)) := by
  simp [window, h]

theorem window_append (m : Memory α) (offset count more : Nat) :
    m.window offset (count + more) = m.window offset count ++ m.window (offset + count) more := by
  simp [window, List.range_add, Nat.add_assoc]

theorem window_succ_cons (m : Memory α) (offset count : Nat) :
    m.window offset (count + 1) = m.read offset :: m.window (offset + 1) count := by
  rw [Nat.add_comm, window_append]
  rfl

theorem window_congr (h : ∀ i, offset ≤ i → i < offset + count → m'.read i = m.read i) :
    m'.window offset count = m.window offset count := by
  refine List.map_congr_left fun i hi => ?_
  have := List.mem_range.1 hi
  exact h _ (by omega) (by omega)

theorem window_write_of_not_mem (m : Memory α) (h : i < offset ∨ offset + count ≤ i) (a : α) :
    (m.write i a).window offset count = m.window offset count :=
  window_congr fun j _ _ => m.read_write_of_ne (by omega) a

/-- The second memory is the first one but for the cells of a range. -/
structure ChangedIn (r : Region) (m m' : Memory α) : Prop where
  arena_eq : m'.arena = m.arena
  read_eq {i : Nat} : ¬ r.Contains i → m'.read i = m.read i

namespace ChangedIn

theorem refl (r : Region) (m : Memory α) : ChangedIn r m m := ⟨rfl, fun _ => rfl⟩

theorem trans (h : ChangedIn r m m') (h' : ChangedIn r m' m'') : ChangedIn r m m'' :=
  ⟨h'.arena_eq.trans h.arena_eq, fun hi => (h'.read_eq hi).trans (h.read_eq hi)⟩

theorem size_eq (h : ChangedIn r m m') : m'.size = m.size := congrArg Arena.slots h.arena_eq

theorem used_eq (h : ChangedIn r m m') : m'.used = m.used := congrArg Arena.used h.arena_eq

theorem write (m : Memory α) (h : r.Contains i) (a : α) : ChangedIn r m (m.write i a) :=
  ⟨arena_write .., fun hj => m.read_write_of_ne (fun heq => hj (by rwa [heq])) a⟩

theorem window_eq (h : ChangedIn r m m')
    (hapart : r.offset + r.length ≤ offset ∨ offset + count ≤ r.offset) :
    m'.window offset count = m.window offset count := by
  refine window_congr fun i _ _ => h.read_eq ?_
  unfold Region.Contains
  omega

theorem mono (h : ChangedIn r m m') (hsub : ∀ i, r.Contains i → t.Contains i) :
    ChangedIn t m m' :=
  ⟨h.arena_eq, fun hi => h.read_eq fun hr => hi (hsub _ hr)⟩

end ChangedIn

theorem changedIn_writeAll (m : Memory α) (offset : Nat) (as : List α) :
    ChangedIn ⟨offset, as.length⟩ m (m.writeAll offset as) := by
  induction as generalizing m offset with
  | nil => exact .refl _ m
  | cons a as ih =>
    refine (ChangedIn.write m (i := offset) ⟨Nat.le_refl _, by simp⟩ a).trans ?_
    refine (ih (m.write offset a) (offset + 1)).mono fun i hi => ?_
    simp only [Region.Contains, List.length_cons] at *
    omega

theorem window_writeAll (m : Memory α) (offset : Nat) (as : List α)
    (h : offset + as.length ≤ m.size) : (m.writeAll offset as).window offset as.length = as := by
  induction as generalizing m offset with
  | nil => rfl
  | cons a as ih =>
    rw [List.length_cons] at h
    have hchanged := changedIn_writeAll (m.write offset a) (offset + 1) as
    rw [List.length_cons, window_succ_cons, writeAll, ih _ _ (by simp; omega),
      hchanged.read_eq (by simp [Region.Contains]), m.read_write_self (by omega)]

theorem read_writeAll (m : Memory α) {as : List α} (h : offset + as.length ≤ m.size) {a : α}
    (ha : as[i]? = some a) : (m.writeAll offset as).read (offset + i) = a := by
  have hi : i < as.length := (List.getElem?_eq_some_iff.1 ha).1
  have hget := getElem?_window (m.writeAll offset as) offset hi
  rw [window_writeAll m offset as h, ha] at hget
  exact (Option.some.inj hget).symm

theorem read_move (m : Memory α) {source target count : Nat} (h : target + count ≤ m.size)
    (hi : i < count) : (m.move source target count).read (target + i) = m.read (source + i) :=
  m.read_writeAll (by simpa using h) (m.getElem?_window source hi)

/-- A range that was moved stands at the new place as it stood at the old one. -/
theorem window_move (m : Memory α) {source target count : Nat} (h : target + count ≤ m.size) :
    (m.move source target count).window target count = m.window source count := by
  have hwindow := m.window_writeAll target (m.window source count) (by simpa using h)
  rwa [length_window] at hwindow

theorem changedIn_move (m : Memory α) (source target count : Nat) :
    ChangedIn ⟨target, count⟩ m (m.move source target count) := by
  have hchanged := m.changedIn_writeAll target (m.window source count)
  rwa [length_window] at hchanged

end Memory

end CardSearch
