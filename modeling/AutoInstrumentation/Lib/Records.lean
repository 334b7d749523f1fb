import AutoInstrumentation.Lib.Cursor

/-!
# AutoInstrumentation.Lib.Records

A loop that reads records until it reaches the end of the used part of a buffer.

Each turn reads one record and moves a state, or ends the loop; a failure ends it too, and
the state before the record stays. Over the encodings of some records the loop passes from
state to state, one record after the other.
-/

namespace AutoInstrumentation.Lib.Cursor

variable {β σ : Type}

/-- How a turn ends. -/
inductive Turn (σ : Type)
  | next (state : σ)
  | stop (state : σ)

/-- The loop, as long as more than `slack` symbols are ahead. -/
def loop (turn : σ → Cursor β (Turn σ)) (slack : ℕ) : ℕ → σ → List β → σ
  | 0, s, _ => s
  | fuel + 1, s, bs =>
      if bs.length ≤ slack then s
      else
        match turn s bs with
        | some (.next s, bs) => loop turn slack fuel s bs
        | some (.stop s, _) => s
        | none => s

/-- The loop over the first `read` symbols of a buffer; a turn may look beyond them. -/
def readRecords (turn : σ → Cursor β (Turn σ)) (s : σ) (buffer : List β) (read : ℕ) : σ :=
  loop turn (buffer.length - read) buffer.length s buffer

/-- From a state the loop gets through some symbols to another state, whatever is behind them. -/
def Passes (turn : σ → Cursor β (Turn σ)) (s : σ) (bytes : List β) (s' : σ) : Prop :=
  ∀ (slack fuel : ℕ) (rest : List β), slack ≤ rest.length → (bytes ++ rest).length ≤ fuel →
    ∃ fuel', rest.length ≤ fuel' ∧ loop turn slack fuel s (bytes ++ rest)
      = loop turn slack fuel' s' rest

variable {turn : σ → Cursor β (Turn σ)} {s s' s'' : σ} {bytes bytes' : List β}

theorem passes_nil (turn : σ → Cursor β (Turn σ)) (s : σ) : Passes turn s [] s :=
  fun _ fuel _ _ hfuel => ⟨fuel, hfuel, rfl⟩

/-- A record that is read exactly is one turn. -/
theorem Reads.passes (h : Reads (turn s) bytes (.next s')) (hpos : 0 < bytes.length) :
    Passes turn s bytes s' := by
  intro slack fuel rest hslack hfuel
  rw [List.length_append] at hfuel
  obtain ⟨fuel, rfl⟩ : ∃ n, fuel = n + 1 := ⟨fuel - 1, by omega⟩
  refine ⟨fuel, by omega, ?_⟩
  rw [loop, if_neg (by rw [List.length_append]; omega), h rest]

theorem Passes.append (h : Passes turn s bytes s') (h' : Passes turn s' bytes' s'') :
    Passes turn s (bytes ++ bytes') s'' := by
  intro slack fuel rest hslack hfuel
  rw [List.append_assoc] at hfuel ⊢
  have hbehind : slack ≤ (bytes' ++ rest).length := by
    rw [List.length_append]
    exact Nat.le_trans hslack (Nat.le_add_left _ _)
  obtain ⟨fuel₁, hfuel₁, hloop⟩ := h slack fuel (bytes' ++ rest) hbehind hfuel
  obtain ⟨fuel₂, hfuel₂, hloop'⟩ := h' slack fuel₁ rest hslack hfuel₁
  exact ⟨fuel₂, hfuel₂, hloop.trans hloop'⟩

/-- **The records of a buffer** are read, whatever is behind the part of it that is used. -/
theorem Passes.readRecords (h : Passes turn s bytes s') (unused : List β) :
    Cursor.readRecords turn s (bytes ++ unused) bytes.length = s' := by
  have hslack : (bytes ++ unused).length - bytes.length = unused.length := by
    rw [List.length_append, Nat.add_sub_cancel_left]
  rw [Cursor.readRecords, hslack]
  obtain ⟨fuel, -, hloop⟩ := h unused.length _ unused (Nat.le_refl _) (Nat.le_refl _)
  rw [hloop]
  cases fuel with
  | zero => rfl
  | succ fuel => rw [loop, if_pos (Nat.le_refl _)]

end AutoInstrumentation.Lib.Cursor
