import Democrachat.Federation.Mirror

/-!
# The record of a pair

What the three writes of a friendship do to the one record between two users: a request
fills it, an acceptance replaces it where there is one, and a row of a feed puts it.
-/

namespace Democrachat

open Library

@[simp] theorem Friendship.key_request (a b : UserId) (t : Timestamp) :
    (Friendship.request a b t).key = s(a, b) := rfl

@[simp] theorem Friendship.key_accept (f : Friendship) : f.accept.key = f.key := rfl

namespace Inner

/-- The first record between the two. -/
def pairRecord (s : Inner) (pair : Sym2 UserId) : Option Friendship :=
  findKey Friendship.key s.friends pair

theorem friendshipBetween_eq (s : Inner) (a b : UserId) :
    s.friendshipBetween a b = s.pairRecord s(a, b) := by
  unfold friendshipBetween pairRecord findKey
  simp only [Friendship.isBetween_eq]

theorem any_isBetween (s : Inner) (f : Friendship) :
    s.friends.any (fun g => g.isBetween f.requester f.addressee) = (s.pairRecord f.key).isSome := by
  have hbetween : (fun g : Friendship => g.isBetween f.requester f.addressee) =
      fun g => decide (g.key = f.key) :=
    funext (fun g => g.isBetween_eq f.requester f.addressee)
  rw [hbetween, pairRecord, findKey, List.isSome_find?]

theorem pairRecord_key {s : Inner} {pair : Sym2 UserId} {f : Friendship}
    (h : s.pairRecord pair = some f) : f.key = pair := by
  have hkey := List.find?_some h
  exact of_decide_eq_true hkey

/-- Where there is a record, a request changes nothing. -/
theorem addFriendship_of_some {s : Inner} {f : Friendship} (h : (s.pairRecord f.key).isSome = true) :
    s.addFriendship f = (false, s) := by
  unfold addFriendship
  rw [any_isBetween, if_pos h]

/-- A record that is there stays as it is. -/
theorem pairRecord_addFriendship (s : Inner) (f : Friendship) (pair : Sym2 UserId) :
    (s.addFriendship f).2.pairRecord pair =
      (s.pairRecord pair).or (if f.key = pair then some f else none) := by
  unfold addFriendship
  rw [any_isBetween]
  split
  next hsome =>
    by_cases hpair : f.key = pair
    · subst hpair
      obtain ⟨g, hg⟩ := Option.isSome_iff_exists.1 hsome
      rw [hg, Option.some_or]
    · rw [if_neg hpair, Option.or_none]
  next => exact findKey_append_singleton s.friends f pair

theorem pairRecord_updateFriendship (s : Inner) (f : Friendship) (pair : Sym2 UserId) :
    (s.updateFriendship f).pairRecord pair =
      if f.key = pair then (s.pairRecord pair).map (fun _ => f) else s.pairRecord pair := by
  unfold updateFriendship
  by_cases hsome : s.friends.any (fun g => g.isBetween f.requester f.addressee)
  · have hreplace := findKey_replaceFriendship f s.friends pair
    simp only [hsome, and_true] at hreplace
    rw [if_pos hsome]
    refine hreplace.trans ?_
    by_cases hpair : f.key = pair
    · subst hpair
      rw [any_isBetween] at hsome
      obtain ⟨g, hg⟩ := Option.isSome_iff_exists.1 hsome
      rw [if_pos rfl, if_pos rfl, hg]
      rfl
    · rw [if_neg hpair, if_neg hpair]
      rfl
  · rw [if_neg hsome]
    by_cases hpair : f.key = pair
    · subst hpair
      rw [any_isBetween, Option.not_isSome_iff_eq_none] at hsome
      rw [if_pos rfl, hsome]
      rfl
    · rw [if_neg hpair]

theorem pairRecord_putFriendship (s : Inner) (f : Friendship) (pair : Sym2 UserId) :
    (s.put (.friendship f)).pairRecord pair =
      if f.key = pair then some f else s.pairRecord pair := by
  have hfilter : (s.put (.friendship f)).friends =
      s.friends.filter (fun g => g.key ≠ f.key) ++ [f] := by
    simp only [put, Friendship.isBetween_eq, decide_not]
    rfl
  rw [pairRecord, hfilter]
  exact findKey_replace s.friends f pair

/-! ## Users and the outbox -/

theorem users_addFriendship (s : Inner) (f : Friendship) : (s.addFriendship f).2.users = s.users := by
  unfold addFriendship
  split
  next => rfl
  next => rfl

theorem users_updateFriendship (s : Inner) (f : Friendship) :
    (s.updateFriendship f).users = s.users := by
  unfold updateFriendship
  split
  next => rfl
  next => rfl

theorem outbox_addFriendship (s : Inner) (f : Friendship) :
    (s.addFriendship f).2.outbox =
      s.outbox ++
        if (s.pairRecord f.key).isSome then []
        else [⟨s.nextOutbox + 1, .upsert, .friendship f⟩] := by
  unfold addFriendship
  rw [any_isBetween]
  split
  next => exact (List.append_nil _).symm
  next => rfl

theorem outbox_updateFriendship (s : Inner) (f : Friendship) :
    (s.updateFriendship f).outbox =
      s.outbox ++
        if (s.pairRecord f.key).isSome then [⟨s.nextOutbox + 1, .upsert, .friendship f⟩]
        else [] := by
  unfold updateFriendship
  rw [any_isBetween]
  split
  next => rfl
  next => exact (List.append_nil _).symm

/-! ## One record for a pair -/

/-- All records between the two. -/
def pairRecords (s : Inner) (pair : Sym2 UserId) : List Friendship :=
  s.friends.filter (fun f => f.key = pair)

theorem head?_pairRecords (s : Inner) (pair : Sym2 UserId) :
    (s.pairRecords pair).head? = s.pairRecord pair :=
  List.head?_filter

theorem length_pairRecords (s : Inner) (pair : Sym2 UserId) :
    (s.pairRecords pair).length = (s.friends.map Friendship.key).count pair := by
  rw [pairRecords, List.count, List.countP_map, List.countP_eq_length_filter]
  congr 2

theorem pairRecords_eq {s : Inner} {pair : Sym2 UserId} (h : (s.pairRecords pair).length ≤ 1) :
    s.pairRecords pair = (s.pairRecord pair).toList := by
  rw [← head?_pairRecords]
  cases hrecords : s.pairRecords pair with
  | nil => rfl
  | cons f fs =>
    rw [hrecords, List.length_cons] at h
    obtain rfl : fs = [] := List.eq_nil_of_length_eq_zero (by omega)
    rfl

theorem length_pairRecords_addFriendship {s : Inner} {pair : Sym2 UserId}
    (h : (s.pairRecords pair).length ≤ 1) (f : Friendship) :
    ((s.addFriendship f).2.pairRecords pair).length ≤ 1 := by
  unfold addFriendship
  rw [any_isBetween]
  split
  next => exact h
  next hnone =>
    change ((s.friends ++ [f]).filter (fun g => g.key = pair)).length ≤ 1
    rw [List.filter_append, List.length_append]
    change (s.pairRecords pair).length + ([f].filter (fun g => g.key = pair)).length ≤ 1
    by_cases hpair : f.key = pair
    · subst hpair
      have hempty : s.pairRecords f.key = [] := by
        rw [pairRecords_eq h, Option.not_isSome_iff_eq_none.1 hnone]
        rfl
      simp [hempty]
    · simpa [hpair] using h

theorem length_pairRecords_updateFriendship {s : Inner} {pair : Sym2 UserId}
    (h : (s.pairRecords pair).length ≤ 1) (f : Friendship) :
    ((s.updateFriendship f).pairRecords pair).length ≤ 1 := by
  unfold updateFriendship
  split
  next =>
    rw [length_pairRecords] at h ⊢
    change ((replaceFriendship f s.friends).map Friendship.key).count pair ≤ 1
    rwa [map_key_replaceFriendship]
  next => exact h

theorem length_pairRecords_putFriendship {s : Inner} {pair : Sym2 UserId}
    (h : (s.pairRecords pair).length ≤ 1) (f : Friendship) :
    ((s.put (.friendship f)).pairRecords pair).length ≤ 1 := by
  have hfriends : (s.put (.friendship f)).pairRecords pair =
      (s.friends.filter (fun g => g.key ≠ f.key) ++ [f]).filter (fun g => g.key = pair) := by
    simp only [pairRecords, put, Friendship.isBetween_eq, decide_not]
    rfl
  rw [hfriends, List.filter_append, List.length_append, List.filter_filter]
  by_cases hpair : f.key = pair
  · subst hpair
    simp
  · have hfewer : (s.friends.filter
        (fun g => decide (g.key = pair) && decide (g.key ≠ f.key))).length ≤
          (s.pairRecords pair).length := by
      apply List.Sublist.length_le
      apply List.monotone_filter_right
      intro g hg
      simp only [Bool.and_eq_true] at hg
      exact hg.1
    simp only [hpair, List.filter_cons, decide_false, List.filter_nil]
    simpa using hfewer.trans h

end Inner

end Democrachat
