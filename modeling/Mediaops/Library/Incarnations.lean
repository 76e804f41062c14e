import Mathlib.Data.List.Induction
import Mathlib.Order.Basic
import Mathlib.Tactic.Common

namespace Mediaops.Incarnations

-- A log of rows put and removed under keys. A row keeps its identity until it is
-- removed, a new row takes one that the log has never seen.

variable {β κ υ : Type} [DecidableEq κ] (key : β → κ) (uid : β → υ) (dead : β → Bool)

def lastOf (k : κ) (log : List β) : Option β := log.reverse.find? fun e => key e = k

section Last

variable {key}

theorem lastOf_append (k : κ) (log : List β) (e : β) :
    lastOf key k (log ++ [e]) = if key e = k then some e else lastOf key k log := by
  unfold lastOf
  rw [List.reverse_concat, List.find?_cons]
  by_cases h : key e = k <;> simp [h]

theorem lastOf_none {k : κ} {log : List β} (h : lastOf key k log = none) {e : β} (he : e ∈ log) :
    key e ≠ k := by
  have hnone := List.find?_eq_none.mp h e (List.mem_reverse.mpr he)
  simpa using hnone

-- The last event of a key and where it stands.
theorem lastOf_some {k : κ} {log : List β} {e : β} :
    lastOf key k log = some e ↔ key e = k ∧ ∃ i, log[i]? = some e ∧
      ∀ (j : Nat) (other : β), i < j → log[j]? = some other → key other ≠ k := by
  induction log using List.reverseRecOn with
  | nil => simp [lastOf]
  | append_singleton log last ih =>
      rw [lastOf_append]
      have hend : (log ++ [last])[log.length]? = some last := by simp
      by_cases hlast : key last = k
      · rw [if_pos hlast]
        constructor
        · intro h
          obtain rfl := Option.some.inj h
          refine ⟨hlast, log.length, hend, fun j other hj hother => ?_⟩
          have hlen := (List.getElem?_eq_some_iff.mp hother).1
          simp only [List.length_append, List.length_singleton] at hlen
          omega
        · rintro ⟨-, i, hi, hafter⟩
          have hlen := (List.getElem?_eq_some_iff.mp hi).1
          simp only [List.length_append, List.length_singleton] at hlen
          by_cases hsame : i = log.length
          · rw [hsame, hend] at hi
            exact hi
          · exact absurd hlast (hafter log.length last (by omega) hend)
      · rw [if_neg hlast, ih]
        refine and_congr_right fun hk => exists_congr fun i => ?_
        constructor
        · rintro ⟨hi, hafter⟩
          have hlen := (List.getElem?_eq_some_iff.mp hi).1
          refine ⟨by rw [List.getElem?_append_left hlen, hi], fun j other hj hother => ?_⟩
          by_cases hjlen : j < log.length
          · rw [List.getElem?_append_left hjlen] at hother
            exact hafter j other hj hother
          · have hjend := (List.getElem?_eq_some_iff.mp hother).1
            simp only [List.length_append, List.length_singleton] at hjend
            obtain rfl : j = log.length := by omega
            rw [hend] at hother
            obtain rfl := Option.some.inj hother
            exact hlast
        · rintro ⟨hi, hafter⟩
          have hilen := (List.getElem?_eq_some_iff.mp hi).1
          simp only [List.length_append, List.length_singleton] at hilen
          have hlen : i < log.length := by
            by_contra hge
            obtain rfl : i = log.length := by omega
            rw [hend] at hi
            obtain rfl := Option.some.inj hi
            exact hlast hk
          refine ⟨by rwa [List.getElem?_append_left hlen] at hi, fun j other hj hother => ?_⟩
          have hjlen := (List.getElem?_eq_some_iff.mp hother).1
          exact hafter j other hj (by rw [List.getElem?_append_left hjlen, hother])

end Last

-- What may come after a log: a rewrite or the end of the row that is there, or a row
-- where there is none.
def Follows (log : List β) (e : β) : Prop :=
  (∃ prev, lastOf key (key e) log = some prev ∧ dead prev = false ∧ uid e = uid prev) ∨
  ((∀ prev, lastOf key (key e) log = some prev → dead prev = true) ∧ dead e = false ∧
    ∀ old ∈ log, uid old ≠ uid e)

inductive Lawful : List β → Prop where
  | Start : Lawful []
  | Next {log : List β} {e : β} (h : Lawful log) (he : Follows key uid dead log e) :
      Lawful (log ++ [e])

variable {key uid dead} {log : List β}

theorem Lawful.follows (h : Lawful key uid dead log) {i : Nat} {e : β} (he : log[i]? = some e) :
    Follows key uid dead (log.take i) e := by
  induction h with
  | Start => simp at he
  | @Next log last _ hlast ih =>
      have hlen := (List.getElem?_eq_some_iff.mp he).1
      simp only [List.length_append, List.length_singleton] at hlen
      by_cases hi : i < log.length
      · rw [List.getElem?_append_left hi] at he
        rw [List.take_append_of_le_length (Nat.le_of_lt hi)]
        exact ih he
      · obtain rfl : i = log.length := by omega
        obtain rfl : last = e := by simpa using he
        rwa [List.take_left]

-- The event before this one under the same key, or the first sign of the identity.
theorem Lawful.before (h : Lawful key uid dead log) {i : Nat} {e : β} (he : log[i]? = some e) :
    (∃ p prev, p < i ∧ log[p]? = some prev ∧ key prev = key e ∧ dead prev = false ∧
      uid e = uid prev ∧
      ∀ j other, p < j → j < i → log[j]? = some other → key other ≠ key e) ∨
    (dead e = false ∧ (∀ j other, j < i → log[j]? = some other → uid other ≠ uid e) ∧
      ∀ p prev, p < i → log[p]? = some prev → key prev = key e →
        (∀ j other, p < j → j < i → log[j]? = some other → key other ≠ key e) →
          dead prev = true) := by
  have htake : ∀ {p : Nat} {prev : β}, (log.take i)[p]? = some prev ↔
      p < i ∧ log[p]? = some prev := by
    intro p prev
    rw [List.getElem?_take]
    split_ifs with hp
    · simp [hp]
    · simp [hp]
  rcases h.follows he with ⟨prev, hlast, hlive, huid⟩ | ⟨hdead, hlive, hfresh⟩
  · obtain ⟨hkey, p, hp, hafter⟩ := lastOf_some.mp hlast
    obtain ⟨hpi, hpl⟩ := htake.mp hp
    exact .inl ⟨p, prev, hpi, hpl, hkey, hlive, huid, fun j other hpj hji hj =>
      hafter j other hpj (htake.mpr ⟨hji, hj⟩)⟩
  · refine .inr ⟨hlive, fun j other hji hj => ?_, fun p prev hpi hp hkey hafter => ?_⟩
    · exact hfresh other (List.mem_of_getElem? (htake.mpr ⟨hji, hj⟩))
    · refine hdead prev (lastOf_some.mpr ⟨hkey, p, htake.mpr ⟨hpi, hp⟩, fun j other hpj hj => ?_⟩)
      obtain ⟨hji, hjl⟩ := htake.mp hj
      exact hafter j other hpj hji hjl

-- An identity belongs to one key.
theorem Lawful.key_eq (h : Lawful key uid dead log) {i j : Nat} {a b : β}
    (ha : log[i]? = some a) (hb : log[j]? = some b) (huid : uid a = uid b) : key a = key b := by
  have hordered : ∀ (j i : Nat) (a b : β), i < j → log[i]? = some a → log[j]? = some b →
      uid a = uid b → key a = key b := by
    intro j
    induction j using Nat.strongRecOn with
    | _ j ih =>
        intro i a b hij ha hb huid
        rcases h.before hb with ⟨p, prev, hpj, hp, hkey, -, hprev, -⟩ | ⟨-, hfresh, -⟩
        · rw [← hkey]
          have hsame : uid a = uid prev := huid.trans hprev
          rcases Nat.lt_trichotomy i p with hip | rfl | hpi
          · exact ih p hpj i a prev hip ha hp hsame
          · rw [ha] at hp
            rw [Option.some.inj hp]
          · exact (ih i hij p prev a hpi hp ha hsame.symm).symm
        · exact absurd huid (hfresh i a hij ha)
  rcases Nat.lt_trichotomy i j with hij | rfl | hji
  · exact hordered j i a b hij ha hb huid
  · rw [ha] at hb
    rw [Option.some.inj hb]
  · exact (hordered i j b a hji hb ha huid.symm).symm

-- Nothing comes back under an identity that has ended.
theorem Lawful.ended (h : Lawful key uid dead log) {d j : Nat} {e last : β}
    (hd : log[d]? = some last) (hdead : dead last = true) (hj : log[j]? = some e) (hdj : d < j) :
    uid e ≠ uid last := by
  induction j using Nat.strongRecOn generalizing e with
  | _ j ih =>
      intro huid
      rcases h.before hj with ⟨p, prev, hpj, hp, hkey, hlive, hprev, hafter⟩ | ⟨-, hfresh, -⟩
      · rcases Nat.lt_trichotomy d p with hdp | rfl | hpd
        · exact ih p hpj hp hdp (hprev.symm.trans huid)
        · rw [hd] at hp
          rw [← Option.some.inj hp, hdead] at hlive
          cases hlive
        · exact hafter d last hpd hdj hd ((h.key_eq hj hd huid).symm)
      · exact hfresh d last hdj hd huid.symm

-- Between two identities of a key lies the end of the first.
theorem Lawful.ended_between (h : Lawful key uid dead log) {i j : Nat} {a b : β}
    (ha : log[i]? = some a) (hb : log[j]? = some b) (hij : i < j) (hkey : key a = key b)
    (huid : uid b ≠ uid a) :
    ∃ d last, i ≤ d ∧ d < j ∧ log[d]? = some last ∧ dead last = true ∧ uid last = uid a := by
  induction j using Nat.strongRecOn generalizing b with
  | _ j ih =>
      by_cases hmid : ∃ m other, i < m ∧ m < j ∧ log[m]? = some other ∧ key other = key a ∧
          uid other ≠ uid a
      · obtain ⟨m, other, him, hmj, hm, hother, hne⟩ := hmid
        obtain ⟨d, last, hid, hdm, hrest⟩ := ih m hmj hm him hother.symm hne
        exact ⟨d, last, hid, by omega, hrest⟩
      · push Not at hmid
        rcases h.before hb with ⟨p, prev, hpj, hp, hprevKey, -, hprev, hafter⟩ | ⟨-, -, hend⟩
        · -- The event before `b` is `a` or a later one of its identity.
          have hip : i ≤ p := by
            by_contra hlt
            exact hafter i a (by omega) hij ha hkey
          have hsame : uid prev = uid a := by
            rcases Nat.eq_or_lt_of_le hip with rfl | hip
            · rw [ha] at hp
              rw [Option.some.inj hp]
            · exact hmid p prev hip hpj hp (hprevKey.trans hkey.symm)
          exact absurd (hprev.trans hsame) huid
        · obtain ⟨p, prev, hip, hpj, hp, hprevKey, hafter⟩ : ∃ p prev, i ≤ p ∧ p < j ∧
              log[p]? = some prev ∧ key prev = key b ∧
              ∀ m other, p < m → m < j → log[m]? = some other → key other ≠ key b := by
            have hlast : ∃ prev, lastOf key (key b) (log.take j) = some prev := by
              cases hfind : lastOf key (key b) (log.take j) with
              | some prev => exact ⟨prev, rfl⟩
              | none =>
                  have hmem : a ∈ log.take j := by
                    refine List.mem_of_getElem? (i := i) ?_
                    rw [List.getElem?_take, if_pos hij, ha]
                  exact absurd hkey (lastOf_none hfind hmem)
            obtain ⟨prev, hprev⟩ := hlast
            obtain ⟨hprevKey, p, hp, hafter⟩ := lastOf_some.mp hprev
            rw [List.getElem?_take] at hp
            split_ifs at hp with hpj
            refine ⟨p, prev, ?_, hpj, hp, hprevKey, fun m other hpm hmj hm => ?_⟩
            · by_contra hlt
              exact hafter i a (by omega) (by rw [List.getElem?_take, if_pos hij, ha]) hkey
            · exact hafter m other hpm (by rw [List.getElem?_take, if_pos hmj, hm])
          refine ⟨p, prev, hip, hpj, hp, hend p prev hpj hp hprevKey hafter, ?_⟩
          rcases Nat.eq_or_lt_of_le hip with rfl | hip
          · rw [ha] at hp
            rw [Option.some.inj hp]
          · exact hmid p prev hip hpj hp (hprevKey.trans hkey.symm)

-- What a reader of a growing log knows of one key: nothing, that the row at `i` is
-- there, or that the identity of the row at `i` is over.
inductive View where
  | Unknown
  | Live (i : Nat)
  | Dead (i : Nat)

section Reader

variable (key uid dead)

def Absent (k : κ) (log : List β) : Prop :=
  ∀ prev, lastOf key k log = some prev → dead prev = true

-- What a view says after the first `c` events; it may be ahead of them, and what it
-- says of an end may already have happened.
inductive Known (log : List β) (k : κ) (c : Nat) : View → Prop where
  | Unknown (h : Absent key dead k (log.take c)) : Known log k c .Unknown
  | Live {i : Nat} {e : β} (he : log[i]? = some e) (hkey : key e = k) (hlive : dead e = false)
      (hlast : ∀ j other, i < j → j < c → log[j]? = some other → key other ≠ k) :
      Known log k c (.Live i)
  | Dead {i d : Nat} {e last : β} (he : log[i]? = some e) (hkey : key e = k) (hid : i ≤ d)
      (hd : log[d]? = some last) (hdead : dead last = true) (huid : uid last = uid e)
      (hlast : ∀ j other, i < j → j < c → log[j]? = some other → key other = k →
        uid other = uid e) :
      Known log k c (.Dead i)

variable {key uid dead} {k : κ} {c : Nat} {v : View}

theorem getElem?_append_of_some {more : List β} {i : Nat} {e : β} (h : log[i]? = some e) :
    (log ++ more)[i]? = some e := by
  rw [List.getElem?_append_left (List.getElem?_eq_some_iff.mp h).1, h]

theorem getElem?_of_append {more : List β} {j : Nat} {e : β} (hj : j < log.length)
    (h : (log ++ more)[j]? = some e) : log[j]? = some e := by
  rwa [List.getElem?_append_left hj] at h

-- The log goes on.
theorem Known.append (h : Known key uid dead log k c v) (hc : c ≤ log.length) (more : List β) :
    Known key uid dead (log ++ more) k c v := by
  cases h with
  | Unknown h => exact .Unknown (by rwa [List.take_append_of_le_length hc])
  | Live he hkey hlive hlast =>
      exact .Live (getElem?_append_of_some he) hkey hlive fun j other hij hjc hj =>
        hlast j other hij hjc (getElem?_of_append (by omega) hj)
  | Dead he hkey hid hd hdead huid hlast =>
      exact .Dead (getElem?_append_of_some he) hkey hid (getElem?_append_of_some hd) hdead huid
        fun j other hij hjc hj => hlast j other hij hjc (getElem?_of_append (by omega) hj)

-- An event of another key.
theorem Known.skip (h : Known key uid dead log k c v)
    (hother : ∀ e, log[c]? = some e → key e ≠ k) : Known key uid dead log k (c + 1) v := by
  cases h with
  | Unknown h =>
      refine .Unknown ?_
      cases he : log[c]? with
      | none => rwa [List.take_add_one, he, Option.toList_none, List.append_nil]
      | some e =>
          rw [List.take_add_one, he, Option.toList_some]
          intro prev hprev
          rw [lastOf_append, if_neg (hother e he)] at hprev
          exact h prev hprev
  | Live he hkey hlive hlast =>
      refine .Live he hkey hlive fun j other hij hjc hj => ?_
      rcases Nat.lt_succ_iff_lt_or_eq.mp hjc with hjc | rfl
      · exact hlast j other hij hjc hj
      · exact hother other hj
  | Dead he hkey hid hd hdead huid hlast =>
      refine .Dead he hkey hid hd hdead huid fun j other hij hjc hj hk => ?_
      rcases Nat.lt_succ_iff_lt_or_eq.mp hjc with hjc | rfl
      · exact hlast j other hij hjc hj hk
      · exact absurd hk (hother other hj)

-- An event the view is already ahead of.
theorem Known.live_ahead {i : Nat} (h : Known key uid dead log k c (.Live i)) (hi : c ≤ i) :
    Known key uid dead log k (c + 1) (.Live i) := by
  cases h with
  | Live he hkey hlive _ =>
      exact .Live he hkey hlive fun j other hij hjc _ => by omega

theorem Known.dead_ahead {i : Nat} (h : Known key uid dead log k c (.Dead i)) (hi : c ≤ i) :
    Known key uid dead log k (c + 1) (.Dead i) := by
  cases h with
  | Dead he hkey hid hd hdead huid _ =>
      exact .Dead he hkey hid hd hdead huid fun j other hij hjc _ _ => by omega

-- A late event of an identity that is over.
theorem Known.dead_same {i : Nat} {e last : β} (h : Known key uid dead log k c (.Dead i))
    (hi : log[i]? = some e) (hc : log[c]? = some last) (hsame : uid last = uid e) :
    Known key uid dead log k (c + 1) (.Dead i) := by
  cases h with
  | Dead he hkey hid hd hdead huid hlast =>
      obtain rfl := Option.some.inj (hi.symm.trans he)
      refine .Dead he hkey hid hd hdead huid fun j other hij hjc hj hk => ?_
      rcases Nat.lt_succ_iff_lt_or_eq.mp hjc with hjc | rfl
      · exact hlast j other hij hjc hj hk
      · obtain rfl := Option.some.inj (hj.symm.trans hc)
        exact hsame

-- A view that says something holds of any earlier point.
theorem Known.earlier (h : Known key uid dead log k c v) (hv : v ≠ .Unknown) {c' : Nat}
    (hc : c' ≤ c) : Known key uid dead log k c' v := by
  cases h with
  | Unknown _ => exact absurd rfl hv
  | Live he hkey hlive hlast =>
      exact .Live he hkey hlive fun j other hij hjc => hlast j other hij (by omega)
  | Dead he hkey hid hd hdead huid hlast =>
      exact .Dead he hkey hid hd hdead huid fun j other hij hjc => hlast j other hij (by omega)

theorem known_put {e : β} (he : log[c]? = some e) (hlive : dead e = false) :
    Known key uid dead log (key e) (c + 1) (.Live c) :=
  .Live he rfl hlive fun j other hij hjc _ => by omega

theorem known_removed {e : β} (he : log[c]? = some e) (hdead : dead e = true) :
    Known key uid dead log (key e) (c + 1) (.Dead c) :=
  .Dead he rfl (Nat.le_refl c) he hdead rfl fun j other hij hjc _ _ => by omega

-- The row that the whole log leaves.
theorem known_last {e : β} (h : lastOf key k log = some e) (hlive : dead e = false) :
    ∃ i, log[i]? = some e ∧ Known key uid dead log k log.length (.Live i) := by
  obtain ⟨hkey, i, hi, hafter⟩ := lastOf_some.mp h
  exact ⟨i, hi, .Live hi hkey hlive fun j other hij _ hj => hafter j other hij hj⟩

theorem Known.last_live {i : Nat} (h : Known key uid dead log k log.length (.Live i)) :
    ∃ e, log[i]? = some e ∧ dead e = false ∧ lastOf key k log = some e := by
  cases h with
  | @Live _ e he hkey hlive hlast =>
      refine ⟨e, he, hlive, lastOf_some.mpr ⟨hkey, i, he, fun j other hij hj => ?_⟩⟩
      exact hlast j other hij (List.getElem?_eq_some_iff.mp hj).1 hj

theorem lastOf_isSome {i : Nat} {e : β} (he : log[i]? = some e) (hkey : key e = k) :
    ∃ j prev, i ≤ j ∧ log[j]? = some prev ∧ key prev = k ∧ lastOf key k log = some prev ∧
      ∀ m other, j < m → log[m]? = some other → key other ≠ k := by
  cases hlast : lastOf key k log with
  | none => exact absurd hkey (lastOf_none hlast (List.mem_of_getElem? he))
  | some prev =>
      obtain ⟨hprev, j, hj, hafter⟩ := lastOf_some.mp hlast
      refine ⟨j, prev, ?_, hj, hprev, rfl, hafter⟩
      by_contra hlt
      exact hafter i e (by omega) he hkey

-- A view that has read the whole log is right about what is gone.
theorem Known.last_dead (hl : Lawful key uid dead log) {i : Nat}
    (h : Known key uid dead log k log.length (.Dead i)) : Absent key dead k log := by
  cases h with
  | @Dead _ d e last he hkey hid hd hdead huid hlast =>
      obtain ⟨j, prev, hij, hj, -, hfind, hafter⟩ := lastOf_isSome he hkey
      have hdj : d ≤ j := by
        by_contra hlt
        exact hafter d last (by omega) hd ((hl.key_eq hd he huid).trans hkey)
      have hsame : uid prev = uid last := by
        rcases Nat.eq_or_lt_of_le hij with rfl | hij
        · rw [he] at hj
          rw [← Option.some.inj hj, huid]
        · rw [huid]
          exact hlast j prev hij (List.getElem?_eq_some_iff.mp hj).1 hj (lastOf_some.mp hfind).1
      intro other hother
      obtain rfl := Option.some.inj (hfind.symm.trans hother)
      rcases Nat.eq_or_lt_of_le hdj with rfl | hdj
      · rw [hd] at hj
        rwa [← Option.some.inj hj]
      · exact absurd hsame (hl.ended hd hdead hj hdj)

-- A row that is no longer there has ended.
theorem Known.ended (hl : Lawful key uid dead log) {i : Nat}
    (h : Known key uid dead log k c (.Live i)) (habsent : Absent key dead k log) :
    Known key uid dead log k c (.Dead i) := by
  cases h with
  | @Live _ e he hkey hlive hlast =>
      obtain ⟨j, prev, hij, hj, hprev, hfind, -⟩ := lastOf_isSome he hkey
      have hdead := habsent prev hfind
      obtain ⟨d, last, hid, hd, hlastDead, huid⟩ : ∃ d last, i ≤ d ∧ log[d]? = some last ∧
          dead last = true ∧ uid last = uid e := by
        by_cases hsame : uid prev = uid e
        · exact ⟨j, prev, hij, hj, hdead, hsame⟩
        · have hne : i ≠ j := by
            rintro rfl
            rw [he] at hj
            exact hsame (congrArg uid (Option.some.inj hj).symm)
          obtain ⟨d, last, hid, -, hd, hlastDead, huid⟩ :=
            hl.ended_between he hj (by omega) (hkey.trans hprev.symm) hsame
          exact ⟨d, last, hid, hd, hlastDead, huid⟩
      exact .Dead he hkey hid hd hlastDead huid fun j other hij hjc hj hk =>
        absurd hk (hlast j other hij hjc hj)

-- What another identity has under the key of one that is over is younger than its end.
theorem Lawful.after_end (hl : Lawful key uid dead log) {i j d : Nat} {a b last : β}
    (ha : log[i]? = some a) (hb : log[j]? = some b) (hij : i ≤ j) (hkey : key a = key b)
    (huid : uid b ≠ uid a) (hd : log[d]? = some last)
    (hsame : uid last = uid a) : d < j := by
  have hne : i ≠ j := by
    rintro rfl
    rw [ha] at hb
    exact huid (congrArg uid (Option.some.inj hb).symm)
  obtain ⟨d', last', -, hdj, hd', hdead', huid'⟩ :=
    hl.ended_between ha hb (by omega) hkey huid
  have hsame' : uid last = uid last' := hsame.trans huid'.symm
  by_contra hge
  exact hl.ended hd' hdead' hd (by omega) hsame'

end Reader

end Mediaops.Incarnations
