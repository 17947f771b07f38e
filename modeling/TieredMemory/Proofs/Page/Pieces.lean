import TieredMemory.Page.Cache

namespace TieredMemory

def Tiles (pageSize : Nat) : (address length : Nat) → List Piece → Prop
  | _, length, [] => length = 0
  | address, length, piece :: rest =>
    piece.page * pageSize + piece.offset = address ∧
      piece.offset + piece.length ≤ pageSize ∧ 0 < piece.length ∧ piece.length ≤ length ∧
      (piece.length < length → piece.offset + piece.length = pageSize) ∧
      Tiles pageSize (address + piece.length) (length - piece.length) rest

def pieceOf (pageSize address stop page : Nat) : Piece :=
  ⟨page, max address (page * pageSize) - page * pageSize,
    min stop ((page + 1) * pageSize) - max address (page * pageSize)⟩

theorem pieces_eq {length : Nat} (pageSize address : Nat) (h : 0 < length) :
    pieces pageSize address length =
      (List.range' (address / pageSize)
        ((address + length - 1) / pageSize + 1 - address / pageSize)).map
        (pieceOf pageSize address (address + length)) :=
  if_neg (Nat.ne_of_gt h)

theorem tiles_range {pageSize address stop first n cursor : Nat}
    (hc : max address (first * pageSize) = cursor) (hf : cursor < (first + 1) * pageSize)
    (hs : cursor < stop) (hl : stop ≤ (first + n) * pageSize)
    (hn : (first + n) * pageSize < stop + pageSize) :
    Tiles pageSize cursor (stop - cursor)
      ((List.range' first n).map (pieceOf pageSize address stop)) := by
  induction n generalizing first cursor with
  | zero =>
    rw [Nat.add_zero] at hl
    omega
  | succ n ih =>
    have hsucc : (first + 1) * pageSize = first * pageSize + pageSize := Nat.succ_mul _ _
    rw [List.range'_succ, List.map_cons, Tiles, pieceOf, hc, ← Nat.succ_eq_add_one first]
    dsimp only
    by_cases hlast : stop ≤ (first + 1) * pageSize
    · have hz : n = 0 := by
        apply Nat.eq_zero_of_not_pos
        intro hpos
        have := Nat.mul_le_mul_right pageSize (show first + 2 ≤ first + (n + 1) by omega)
        rw [Nat.add_mul first 2] at this
        omega
      subst hz
      rw [Nat.min_eq_left hlast, List.range'_zero, List.map_nil, Tiles]
      omega
    · have hle := Nat.not_le.mp hlast
      rw [Nat.min_eq_right (Nat.le_of_lt hle)]
      refine ⟨by omega, by omega, by omega, by omega, fun _ => by omega, ?_⟩
      have hnext : max address ((first + 1) * pageSize) = (first + 1) * pageSize := by omega
      have htiles := ih hnext (by rw [Nat.succ_mul (first + 1)]; omega) hle
        (by rwa [Nat.add_assoc, Nat.add_comm 1]) (by rwa [Nat.add_assoc, Nat.add_comm 1])
      have hcur : cursor + ((first + 1) * pageSize - cursor) = (first + 1) * pageSize := by omega
      have hrest : stop - cursor - ((first + 1) * pageSize - cursor) =
          stop - (first + 1) * pageSize := by omega
      rw [Nat.succ_eq_add_one, hcur, hrest]
      exact htiles

theorem tiles_pieces {pageSize : Nat} (hp : 0 < pageSize) (address length : Nat) :
    Tiles pageSize address length (pieces pageSize address length) := by
  by_cases hz : length = 0
  · rw [pieces, if_pos hz]
    exact hz
  · have hpos : 0 < length := Nat.pos_of_ne_zero hz
    have hfirst := Nat.div_add_mod address pageSize
    have hflt := Nat.mod_lt address hp
    have hlast := Nat.div_add_mod (address + length - 1) pageSize
    have hllt := Nat.mod_lt (address + length - 1) hp
    have hle : address / pageSize ≤ (address + length - 1) / pageSize :=
      Nat.div_le_div_right (by omega)
    rw [Nat.mul_comm] at hfirst hlast
    have hcount :
        address / pageSize + ((address + length - 1) / pageSize + 1 - address / pageSize) =
        (address + length - 1) / pageSize + 1 := by omega
    have hrange : Tiles pageSize address (address + length - address)
        ((List.range' (address / pageSize) ((address + length - 1) / pageSize + 1 -
          address / pageSize)).map (pieceOf pageSize address (address + length))) := by
      apply tiles_range
      · omega
      · rw [Nat.succ_mul]
        omega
      · omega
      · rw [hcount, Nat.succ_mul]
        omega
      · rw [hcount, Nat.succ_mul]
        omega
    rw [Nat.add_sub_cancel_left] at hrange
    rw [pieces_eq pageSize address hpos]
    exact hrange

theorem Tiles.dvd_of_lt {pageSize address length : Nat} {piece : Piece} {rest : List Piece}
    (h : Tiles pageSize address length (piece :: rest)) (hl : piece.length < length) :
    pageSize ∣ address + piece.length := by
  obtain ⟨ha, -, -, -, hend, -⟩ := h
  have hsum : address + piece.length = (piece.page + 1) * pageSize := by
    rw [Nat.succ_mul, ← ha]
    have := hend hl
    omega
  exact hsum ▸ Nat.dvd_mul_left pageSize (piece.page + 1)

end TieredMemory
