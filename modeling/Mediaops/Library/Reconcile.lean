import Mathlib.Data.List.Nodup
import Mathlib.Data.List.Perm.Basic
import Mathlib.Logic.Relation
import Mathlib.Tactic.Common

namespace Mediaops.Reconcile

-- A list of named entries on its way to what is wanted of it, one change after another,
-- in any order and with any stop.

-- What is wanted: an entry under each of some names, settled by what is wanted of it. One
-- that is new need not be determined.
structure Plan (ε ω ν : Type) where
  want : List ω
  nameOf : ε → ν
  name : ω → ν
  settle : ω → ε → ε
  Made : ω → ε → Prop
  distinct : (want.map name).Nodup
  nameOf_settle : ∀ w e, nameOf e = name w → nameOf (settle w e) = name w
  settle_settle : ∀ w e, nameOf e = name w → settle w (settle w e) = settle w e
  nameOf_made : ∀ w e, Made w e → nameOf e = name w
  settle_made : ∀ w e, Made w e → settle w e = e

variable {ε ω ν κ : Type}

namespace Plan

variable (plan : Plan ε ω ν)

inductive Step : List ε → List ε → Prop where
  | drop (front back : List ε) (e : ε) (h : plan.nameOf e ∉ plan.want.map plan.name) :
      Step (front ++ e :: back) (front ++ back)
  | settle (front back : List ε) (e : ε) (w : ω) (hw : w ∈ plan.want) (h : plan.nameOf e = plan.name w) :
      Step (front ++ e :: back) (front ++ plan.settle w e :: back)
  | make (entries : List ε) (e : ε) (w : ω) (hw : w ∈ plan.want)
      (h : plan.name w ∉ entries.map plan.nameOf) (he : plan.Made w e) :
      Step entries (entries ++ [e])

def Reaches : List ε → List ε → Prop := Relation.ReflTransGen plan.Step

-- Nothing is left to change.
structure Settled (entries : List ε) : Prop where
  wanted : ∀ e ∈ entries, ∃ w ∈ plan.want, plan.nameOf e = plan.name w ∧ plan.settle w e = e
  present : ∀ w ∈ plan.want, plan.name w ∈ entries.map plan.nameOf

-- Where an entry comes from.
def Origin (start : List ε) (e : ε) : Prop :=
  e ∈ start ∨
    (∃ w ∈ plan.want, ∃ old ∈ start, plan.nameOf old = plan.name w ∧ e = plan.settle w old) ∨
      ∃ w ∈ plan.want, plan.name w ∉ start.map plan.nameOf ∧ plan.Made w e

end Plan

section Runs

variable {plan : Plan ε ω ν} {start entries : List ε}

theorem eq_of_name {w w' : ω} (hw : w ∈ plan.want) (hw' : w' ∈ plan.want) (h : plan.name w = plan.name w') :
    w = w' :=
  List.inj_on_of_nodup_map plan.distinct hw hw' h

theorem step_names {after : List ε} (h : plan.Step entries after) (hdistinct : (entries.map plan.nameOf).Nodup) :
    (after.map plan.nameOf).Nodup := by
  cases h with
  | drop front back e h =>
      refine hdistinct.sublist ?_
      rw [List.map_append, List.map_append]
      exact (List.Sublist.refl _).append (List.sublist_cons_self _ _)
  | settle front back e w hw h =>
      rw [List.map_append, List.map_cons] at hdistinct ⊢
      rwa [plan.nameOf_settle w e h, ← h]
  | make _ e w hw h he =>
      rw [List.map_append, List.map_singleton, plan.nameOf_made w e he]
      exact List.nodup_append.mpr ⟨hdistinct, List.nodup_singleton _,
        fun a ha b hb hab => h (List.mem_singleton.mp hb ▸ hab ▸ ha)⟩

theorem reaches_names (h : plan.Reaches start entries) (hdistinct : (start.map plan.nameOf).Nodup) :
    (entries.map plan.nameOf).Nodup := by
  induction h with
  | refl => exact hdistinct
  | tail _ hstep ih => exact step_names hstep ih

-- An entry that is wanted stays, as it was or settled.
theorem reaches_kept (h : plan.Reaches start entries) {w : ω} {old : ε} (hw : w ∈ plan.want)
    (hold : old ∈ start) (hname : plan.nameOf old = plan.name w) :
    old ∈ entries ∨ plan.settle w old ∈ entries := by
  induction h with
  | refl => exact Or.inl hold
  | @tail middle after _ hstep ih =>
      cases hstep with
      | drop front back e h =>
          have hkeep : ∀ other, plan.nameOf other = plan.name w → other ∈ front ++ e :: back →
              other ∈ front ++ back := by
            intro other hother hmem
            rcases List.mem_append.mp hmem with hmem | hmem
            · exact List.mem_append_left _ hmem
            · rcases List.mem_cons.mp hmem with rfl | hmem
              · exact absurd (hother ▸ List.mem_map_of_mem hw) h
              · exact List.mem_append_right _ hmem
          exact ih.imp (hkeep _ hname) (hkeep _ (plan.nameOf_settle w old hname))
      | settle front back e w' hw' h =>
          -- what is settled here is the entry itself, or another one
          have hmove : ∀ other, plan.nameOf other = plan.name w → other ∈ front ++ e :: back →
              other ∈ front ++ plan.settle w' e :: back ∨
                plan.settle w other ∈ front ++ plan.settle w' e :: back := by
            intro other hother hmem
            rcases List.mem_append.mp hmem with hmem | hmem
            · exact Or.inl (List.mem_append_left _ hmem)
            · rcases List.mem_cons.mp hmem with rfl | hmem
              · obtain rfl := eq_of_name hw' hw (h.symm.trans hother)
                exact Or.inr (List.mem_append_right _ List.mem_cons_self)
              · exact Or.inl (List.mem_append_right _ (List.mem_cons_of_mem _ hmem))
          rcases ih with ih | ih
          · exact hmove old hname ih
          · rcases hmove _ (plan.nameOf_settle w old hname) ih with hmem | hmem
            · exact Or.inr hmem
            · rw [plan.settle_settle w old hname] at hmem
              exact Or.inr hmem
      | make _ e w' hw' h he =>
          exact ih.imp (List.mem_append_left _) (List.mem_append_left _)

theorem reaches_origin (h : plan.Reaches start entries) : ∀ e ∈ entries, plan.Origin start e := by
  induction h with
  | refl => exact fun e he => Or.inl he
  | @tail middle after hreach hstep ih =>
      cases hstep with
      | drop front back e h =>
          intro other hother
          rcases List.mem_append.mp hother with hother | hother
          · exact ih other (List.mem_append_left _ hother)
          · exact ih other (List.mem_append_right _ (List.mem_cons_of_mem _ hother))
      | settle front back e w hw h =>
          intro other hother
          rcases List.mem_append.mp hother with hother | hother
          · exact ih other (List.mem_append_left _ hother)
          · rcases List.mem_cons.mp hother with rfl | hother
            · rcases ih e (List.mem_append_right _ List.mem_cons_self) with hold | hold | hold
              · exact Or.inr (Or.inl ⟨w, hw, e, hold, h, rfl⟩)
              · obtain ⟨w', hw', old, hold, hname, rfl⟩ := hold
                obtain rfl := eq_of_name hw' hw ((plan.nameOf_settle w' old hname).symm.trans h)
                exact Or.inr (Or.inl ⟨w', hw, old, hold, hname, plan.settle_settle w' old hname⟩)
              · obtain ⟨w', hw', hnew, hmade⟩ := hold
                obtain rfl := eq_of_name hw' hw ((plan.nameOf_made w' e hmade).symm.trans h)
                rw [plan.settle_made w' e hmade]
                exact Or.inr (Or.inr ⟨w', hw, hnew, hmade⟩)
            · exact ih other (List.mem_append_right _ (List.mem_cons_of_mem _ hother))
      | make _ e w hw h he =>
          intro other hother
          rcases List.mem_append.mp hother with hother | hother
          · exact ih other hother
          · obtain rfl := List.mem_singleton.mp hother
            refine Or.inr (Or.inr ⟨w, hw, fun hmem => ?_, he⟩)
            obtain ⟨old, hold, hname⟩ := List.mem_map.mp hmem
            rcases reaches_kept hreach hw hold hname with hkept | hkept
            · exact h (List.mem_map.mpr ⟨old, hkept, hname⟩)
            · exact h (List.mem_map.mpr ⟨_, hkept, plan.nameOf_settle w old hname⟩)

-- What is under a wanted name in the end: the settled entry of the start, or a new one.
def Outcome (plan : Plan ε ω ν) (start : List ε) (w : ω) (e : ε) : Prop :=
  (∃ old ∈ start, plan.nameOf old = plan.name w ∧ e = plan.settle w old) ∨
    (plan.name w ∉ start.map plan.nameOf ∧ plan.Made w e)

theorem settled_outcome (h : plan.Reaches start entries) (hsettled : plan.Settled entries) {w : ω}
    (hw : w ∈ plan.want) {e : ε} (he : e ∈ entries) (hname : plan.nameOf e = plan.name w) :
    Outcome plan start w e := by
  have hfixed : plan.settle w e = e := by
    obtain ⟨w', hw', hname', hfixed⟩ := hsettled.wanted e he
    obtain rfl := eq_of_name hw hw' (hname.symm.trans hname')
    exact hfixed
  rcases reaches_origin h e he with hold | hold | hold
  · exact Or.inl ⟨e, hold, hname, hfixed.symm⟩
  · obtain ⟨w', hw', old, hold, hold', rfl⟩ := hold
    obtain rfl := eq_of_name hw' hw ((plan.nameOf_settle w' old hold').symm.trans hname)
    exact Or.inl ⟨old, hold, hold', rfl⟩
  · obtain ⟨w', hw', hnew, hmade⟩ := hold
    obtain rfl := eq_of_name hw' hw ((plan.nameOf_made w' e hmade).symm.trans hname)
    exact Or.inr ⟨hnew, hmade⟩

-- The names in the end are the wanted ones.
theorem settled_names (h : plan.Reaches start entries) (hsettled : plan.Settled entries)
    (hdistinct : (start.map plan.nameOf).Nodup) :
    (entries.map plan.nameOf).Perm (plan.want.map plan.name) := by
  refine (List.perm_ext_iff_of_nodup (reaches_names h hdistinct) plan.distinct).mpr fun a => ⟨?_, ?_⟩
  · intro ha
    obtain ⟨e, he, rfl⟩ := List.mem_map.mp ha
    obtain ⟨w, hw, hname, -⟩ := hsettled.wanted e he
    exact hname ▸ List.mem_map_of_mem hw
  · intro ha
    obtain ⟨w, hw, rfl⟩ := List.mem_map.mp ha
    exact hsettled.present w hw

-- Two outcomes under one name are alike but for what `erase` takes from a new entry.
theorem outcome_unique {erase : ε → κ} (hmade : ∀ w e e', plan.Made w e → plan.Made w e' → erase e = erase e')
    (hdistinct : (start.map plan.nameOf).Nodup) {w : ω} {e e' : ε} (h : Outcome plan start w e)
    (h' : Outcome plan start w e') : erase e = erase e' := by
  rcases h with ⟨old, hold, hname, rfl⟩ | ⟨hnew, he⟩
  · rcases h' with ⟨old', hold', hname', rfl⟩ | ⟨hnew', -⟩
    · rw [List.inj_on_of_nodup_map hdistinct hold hold' (hname.trans hname'.symm)]
    · exact absurd (List.mem_map.mpr ⟨old, hold, hname⟩) hnew'
  · rcases h' with ⟨old', hold', hname', rfl⟩ | ⟨-, he'⟩
    · exact absurd (List.mem_map.mpr ⟨old', hold', hname'⟩) hnew
    · exact hmade w e e' he he'

-- However it was stopped and started again, a settled list is the same up to `erase`.
theorem settled_unique {erase : ε → κ} (hmade : ∀ w e e', plan.Made w e → plan.Made w e' → erase e = erase e')
    (hdistinct : (start.map plan.nameOf).Nodup) {entries' : List ε} (h : plan.Reaches start entries)
    (hsettled : plan.Settled entries) (h' : plan.Reaches start entries') (hsettled' : plan.Settled entries') :
    (entries.map erase).Perm (entries'.map erase) := by
  -- an entry of one list is in the other, under its name
  have hcross : ∀ {as bs : List ε}, plan.Reaches start as → plan.Settled as → plan.Reaches start bs →
      plan.Settled bs → ∀ x ∈ as.map (fun e => (plan.nameOf e, erase e)),
        x ∈ bs.map fun e => (plan.nameOf e, erase e) := by
    intro as bs has hsas hbs hsbs x hx
    obtain ⟨e, he, rfl⟩ := List.mem_map.mp hx
    obtain ⟨w, hw, hname, -⟩ := hsas.wanted e he
    obtain ⟨e', he', hname'⟩ := List.mem_map.mp (hsbs.present w hw)
    have halike := outcome_unique hmade hdistinct (settled_outcome has hsas hw he hname)
      (settled_outcome hbs hsbs hw he' hname')
    exact List.mem_map.mpr ⟨e', he', by rw [halike, hname, hname']⟩
  have hpairs : ∀ {as : List ε}, plan.Reaches start as →
      (as.map fun e => (plan.nameOf e, erase e)).Nodup := by
    intro as has
    refine List.Nodup.of_map Prod.fst ?_
    rw [List.map_map]
    exact reaches_names has hdistinct
  have hperm := (List.perm_ext_iff_of_nodup (hpairs h) (hpairs h')).mpr fun x =>
    ⟨hcross h hsettled h' hsettled' x, hcross h' hsettled' h hsettled x⟩
  simpa [List.map_map, Function.comp_def] using hperm.map Prod.snd

end Runs

end Mediaops.Reconcile
