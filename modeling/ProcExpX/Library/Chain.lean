import ProcExpX.Library.Loop

/-!
# Chains of records

Records can be chained by the distance from each to the next one, with distance zero
behind the last. A loop that follows a chain visits its records in order. What it reads of a
record may depend on the records before. Whatever the memory holds, such a loop only moves
forward, so it ends.
-/

namespace Library

variable {α σ : Type*}

/-- A record of a chain and the distance to the next one, zero behind the last. -/
structure Link (α : Type*) where
  /-- The record. -/
  value : α
  /-- The distance. -/
  next : ℕ

/-- The records of the chain that starts at a place, as they are read by a loop that visits
them from a state on. -/
inductive Chained (node : σ → ℕ → Option (Link α)) (visit : σ → α → σ) :
    σ → ℕ → List α → Prop
  /-- The last record. -/
  | last {s : σ} {p : ℕ} {a : α} (h : node s p = some ⟨a, 0⟩) : Chained node visit s p [a]
  /-- A record with another one behind it. -/
  | link {s : σ} {p n : ℕ} {a : α} {l : List α} (h : node s p = some ⟨a, n⟩) (hn : 0 < n)
      (hl : Chained node visit (visit s a) (p + n) l) : Chained node visit s p (a :: l)

/-- The state of a loop that follows a chain. -/
structure Walker (σ : Type*) where
  /-- The place it has come to. -/
  place : ℕ
  /-- What it has made of the records so far. -/
  state : σ

/-- One round of the loop: visit the record at the place, then go on to the next one if
there is one. -/
def Walker.round (node : σ → ℕ → Option (Link α)) (visit : σ → α → σ) (w : Walker σ) :
    Round (Walker σ) :=
  match node w.state w.place with
  | none => .wrong
  | some link =>
    if link.next = 0 then .leave ⟨w.place, visit w.state link.value⟩
    else .again ⟨w.place + link.next, visit w.state link.value⟩

variable {node : σ → ℕ → Option (Link α)} {visit : σ → α → σ}

/-- A chain has a record. -/
theorem Chained.ne_nil {s : σ} {p : ℕ} {l : List α} (h : Chained node visit s p l) :
    l ≠ [] := by
  cases h <;> exact List.cons_ne_nil _ _

/-- **Following a chain** visits its records in order, in as many rounds as there are. -/
theorem Chained.loop {s : σ} {p : ℕ} {l : List α} (h : Chained node visit s p l) :
    ∃ last, ∀ fuel, l.length ≤ fuel →
      Library.loop (Walker.round node visit) fuel ⟨p, s⟩ = some ⟨last, l.foldl visit s⟩ := by
  induction h with
  | @last s p a h =>
    refine ⟨p, fun fuel hfuel => ?_⟩
    obtain ⟨fuel, rfl⟩ := Nat.exists_eq_add_one_of_ne_zero (Nat.ne_zero_of_lt hfuel)
    simp [Library.loop, Walker.round, h]
  | @link s p n a l h hn _ ih =>
    obtain ⟨last, hloop⟩ := ih
    refine ⟨last, fun fuel hfuel => ?_⟩
    obtain ⟨fuel, rfl⟩ := Nat.exists_eq_add_one_of_ne_zero (Nat.ne_zero_of_lt hfuel)
    have hround : Walker.round node visit ⟨p, s⟩ = .again ⟨p + n, visit s a⟩ := by
      simp [Walker.round, h, Nat.ne_of_gt hn]
    rw [Library.loop, hround, List.foldl_cons]
    exact hloop fuel (Nat.le_of_succ_le_succ hfuel)

/-- A loop that is left has followed a chain, with a round for each of its records. -/
theorem chained_of_loop {fuel : ℕ} {w w' : Walker σ}
    (h : loop (Walker.round node visit) fuel w = some w') :
    ∃ l, Chained node visit w.state w.place l ∧ l.length ≤ fuel ∧
      w'.state = l.foldl visit w.state := by
  induction fuel generalizing w with
  | zero => cases h
  | succ fuel ih =>
    rw [loop, Walker.round] at h
    cases hnode : node w.state w.place with
    | none =>
      rw [hnode] at h
      cases h
    | some link =>
      rw [hnode] at h
      dsimp only at h
      by_cases hnext : link.next = 0
      · rw [if_pos hnext] at h
        obtain rfl := Option.some.inj h
        have hlast : node w.state w.place = some ⟨link.value, 0⟩ := by rw [hnode, ← hnext]
        exact ⟨[link.value], .last hlast, Nat.le_add_left 1 fuel, rfl⟩
      · rw [if_neg hnext] at h
        obtain ⟨l, hl, hlength, hstate⟩ := ih h
        exact ⟨link.value :: l, .link hnode (Nat.pos_of_ne_zero hnext) hl,
          Nat.succ_le_succ hlength, hstate⟩

/-- **Following anything ends.** If there are records below a limit only, the loop makes
no more rounds than there are places up to the limit. -/
theorem walk_ends {limit : ℕ} (hnode : ∀ s p link, node s p = some link → p < limit) {n : ℕ}
    {w : Walker σ} (hn : limit - w.place < n) (w' : Walker σ) :
    rounds (Walker.round node visit) n w ≠ .again w' := by
  refine rounds_ne_again (fun _ => True) (fun w => limit - w.place) ?_ trivial hn w'
  intro w w' _ hround
  refine ⟨trivial, ?_⟩
  rw [Walker.round] at hround
  cases hlink : node w.state w.place with
  | none =>
    rw [hlink] at hround
    cases hround
  | some link =>
    rw [hlink] at hround
    dsimp only at hround
    have hplace := hnode _ _ _ hlink
    split at hround
    · cases hround
    · obtain rfl := Round.again.inj hround
      show limit - (w.place + link.next) < limit - w.place
      omega

end Library
