import Mathlib.Data.List.Nodup

/-!
# Paging over a growing log

A log is a list whose entries are numbered one after the other. A page holds the entries behind a
cursor, up to a limit, and names the number of its last entry as the next cursor when it is full.
Read page by page, a log that only grows at its end gives each of its entries once.
-/

set_option autoImplicit false

namespace HitlOps.Paging

universe u

variable {α : Type u} {number : α → Nat}

/-- The entries are numbered from `a` on. -/
def Numbered (number : α → Nat) (a : Nat) (log : List α) : Prop :=
  log.map number = List.range' a log.length

/-- The page behind a cursor. -/
def page (cursor limit : Nat) (log : List α) : List α := (log.drop cursor).take limit

/-- The cursor behind a page, when it is full. -/
def next (number : α → Nat) (limit : Nat) (items : List α) : Option Nat :=
  if items.length = limit then items.getLast?.map number else none

theorem Numbered.tail {a : Nat} {x : α} {log : List α} (h : Numbered number a (x :: log)) :
    number x = a ∧ Numbered number (a + 1) log := by
  unfold Numbered at h
  rw [List.map_cons, List.length_cons, List.range'_succ] at h
  obtain ⟨hx, hlog⟩ := List.cons_eq_cons.1 h
  exact ⟨hx, hlog⟩

/-- The number of an entry is its place. -/
theorem Numbered.number_getElem {a : Nat} {log : List α} (h : Numbered number a log) {i : Nat}
    (hi : i < log.length) : number log[i] = a + i := by
  have hmap : (log.map number)[i]? = some (a + i) := by
    rw [show log.map number = _ from h, List.getElem?_range' hi, Nat.one_mul]
  rw [List.getElem?_map, List.getElem?_eq_getElem hi] at hmap
  exact Option.some.inj hmap

/-- Every number is at least the first one. -/
theorem Numbered.le {a : Nat} {log : List α} (h : Numbered number a log) :
    ∀ x ∈ log, a ≤ number x := by
  intro x hx
  have hmem : number x ∈ log.map number := List.mem_map_of_mem hx
  rw [show log.map number = _ from h, List.mem_range'_1] at hmem
  exact hmem.1

/-- The numbers of a log increase. -/
theorem Numbered.pairwise {a : Nat} {log : List α} (h : Numbered number a log) :
    log.Pairwise fun x y => number x < number y := by
  induction log generalizing a with
  | nil => exact List.Pairwise.nil
  | cons x log ih =>
      obtain ⟨hx, hlog⟩ := h.tail
      refine List.pairwise_cons.2 ⟨fun y hy => ?_, ih hlog⟩
      have hle := hlog.le y hy
      omega

/-- The entries behind a cursor are a part of the list. -/
theorem Numbered.filter_eq_drop {cursor a : Nat} {log : List α} (h : Numbered number a log) :
    (log.filter fun x => cursor < number x) = log.drop (cursor + 1 - a) := by
  induction log generalizing a with
  | nil => rw [List.filter_nil, List.drop_nil]
  | cons x log ih =>
      obtain ⟨hx, hlog⟩ := h.tail
      have htail := ih hlog
      by_cases hlt : cursor < a
      · have hnow : cursor + 1 - a = 0 := by omega
        have hlater : cursor + 1 - (a + 1) = 0 := by omega
        rw [hlater, List.drop_zero] at htail
        rw [hnow, List.drop_zero, List.filter_cons_of_pos (by simpa [hx] using hlt), htail]
      · have hstep : cursor + 1 - a = (cursor + 1 - (a + 1)) + 1 := by omega
        rw [hstep, List.drop_succ_cons, List.filter_cons_of_neg (by simpa [hx] using hlt), htail]

/-- Two lists with the same entries in the order of distinct numbers are equal. -/
theorem eq_of_perm {l l' : List α} (h : l.Perm l') (hl : l.Pairwise fun x y => number x ≤ number y)
    (hl' : l'.Pairwise fun x y => number x < number y) : l = l' := by
  have hnodup : (l'.map number).Nodup :=
    List.pairwise_map.2 (hl'.imp fun hlt => Nat.ne_of_lt hlt)
  refine List.Perm.eq_of_pairwise ?_ hl (hl'.imp Nat.le_of_lt) h
  intro x y hx hy hxy hyx
  exact List.inj_on_of_nodup_map hnodup (h.subset hx) hy (Nat.le_antisymm hxy hyx)

/-- A full page ends one limit further. -/
theorem next_page {cursor limit : Nat} {log : List α} (h : Numbered number 1 log)
    (hlimit : 0 < limit) : next number limit (page cursor limit log) =
      if cursor + limit ≤ log.length then some (cursor + limit) else none := by
  have hlength : (page cursor limit log).length = min limit (log.length - cursor) := by
    rw [page, List.length_take, List.length_drop]
  unfold next
  by_cases hfull : cursor + limit ≤ log.length
  · have hlast : cursor + limit - 1 < log.length := by omega
    have hitem : (page cursor limit log).getLast? = some log[cursor + limit - 1] := by
      rw [List.getLast?_eq_getElem?, hlength, page, List.getElem?_take_of_lt (by omega),
        List.getElem?_drop, List.getElem?_eq_some_iff]
      exact ⟨by omega, by congr 1; omega⟩
    rw [if_pos (by omega), if_pos hfull, hitem, Option.map_some, h.number_getElem hlast]
    congr 1
    omega
  · rw [if_neg (by omega), if_neg hfull]

/-- What was read up to a cursor, with the page behind it. -/
theorem take_append_page {cursor limit : Nat} (log : List α) :
    log.take cursor ++ page cursor limit log = log.take (cursor + limit) :=
  (List.take_add ..).symm

end HitlOps.Paging
