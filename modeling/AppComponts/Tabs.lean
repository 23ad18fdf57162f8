import AppComponts.Library.Focus
import AppComponts.Library.Interleaving
import AppComponts.Library.Text

/-!
# The tab bar

`add_tab` and `remove_tab` of `componts.rs` on the global settings, and the click of a tab
in `BaseCompont.slint`. Closing the active tab hands the focus to its left neighbour.
-/

namespace AppComponts
open Transition Text Focus
set_option autoImplicit false

/-- `visible_tabs` and `active_tab`. -/
structure Tabs where
  visibleTabs : List Str
  activeTab : Str
  deriving DecidableEq, Repr

def eventLog : Str := "Event Log".toList

inductive TabAction where
  | addTab (tabName : Str)
  | removeTab (tabName : Str)
  | click (tabName : Str)
  deriving DecidableEq, Repr

namespace Tabs

def start : Tabs := ⟨[eventLog], eventLog⟩

def addTab (t : Tabs) (tabName : Str) : Tabs :=
  if t.visibleTabs.any (· == tabName) then t
  else ⟨t.visibleTabs ++ [tabName], tabName⟩

def removeTab (t : Tabs) (tabName : Str) : Tabs :=
  if tabName = eventLog then t
  else
    let activeTab :=
      if t.activeTab = tabName then
        let currentIndex := (t.visibleTabs.findIdx? (· == tabName)).getD 0
        if currentIndex > 0 then t.visibleTabs[currentIndex - 1]?.getD eventLog else eventLog
      else t.activeTab
    ⟨t.visibleTabs.filter (· ≠ tabName), activeTab⟩

/-- Only a visible tab can be clicked. -/
def next (t : Tabs) : TabAction → Option Tabs
  | .addTab tabName => some (t.addTab tabName)
  | .removeTab tabName => some (t.removeTab tabName)
  | .click tabName => if tabName ∈ t.visibleTabs then some { t with activeTab := tabName } else none

def removeTabs (t : Tabs) (names : List Str) : Tabs := names.foldl removeTab t

/-- Every tab is there once, the event log is the first, and the active tab is visible. -/
structure Valid (t : Tabs) : Prop where
  nodup : t.visibleTabs.Nodup
  first : t.visibleTabs.head? = some eventLog
  active : t.activeTab ∈ t.visibleTabs

def stays (names : List Str) (tab : Str) : Bool := tab = eventLog || !names.contains tab

variable {t : Tabs} {tabName : Str}

theorem valid_start : start.Valid := ⟨List.pairwise_singleton _ _, rfl, List.mem_singleton_self _⟩

theorem valid_addTab (h : t.Valid) : (t.addTab tabName).Valid := by
  unfold addTab
  by_cases hmem : t.visibleTabs.any (· == tabName) = true
  · rw [if_pos hmem]
    exact h
  · have hnew : tabName ∉ t.visibleTabs := by simpa using hmem
    rw [if_neg hmem]
    refine ⟨?_, ?_, List.mem_append_right _ (List.mem_singleton_self _)⟩
    · refine List.nodup_append.mpr ⟨h.nodup, List.pairwise_singleton _ _, ?_⟩
      intro x hx y hy heq
      rw [List.mem_singleton.mp hy] at heq
      exact hnew (heq ▸ hx)
    · rw [List.head?_append, h.first]
      rfl

theorem left_neighbour (h : t.Valid) (hmem : tabName ∈ t.visibleTabs) (hne : tabName ≠ eventLog) :
    ∃ before left after, t.visibleTabs = before ++ left :: tabName :: after ∧
      tabName ∉ before ++ [left] ∧
      t.visibleTabs.findIdx? (· == tabName) = some (before.length + 1) := by
  obtain ⟨front, after, hsplit, hnot⟩ := List.eq_append_cons_of_mem hmem
  rcases List.eq_nil_or_concat front with rfl | ⟨before, left, rfl⟩
  · have hfirst := h.first
    rw [hsplit] at hfirst
    exact (hne (Option.some.inj hfirst)).elim
  · rw [List.concat_eq_append] at hsplit hnot
    refine ⟨before, left, after, by simp [hsplit], hnot, ?_⟩
    rw [hsplit, List.findIdx?_append]
    have hnone : (before ++ [left]).findIdx? (· == tabName) = none := by
      rw [List.findIdx?_eq_none_iff]
      intro x hx
      exact beq_eq_false_iff_ne.mpr fun heq => hnot (heq ▸ hx)
    rw [hnone]
    simp [List.findIdx?_cons]

/-- One closing is a filtering of the tabs, and the focus goes to the nearest one. -/
theorem removeTab_eq (h : t.Valid) :
    (t.removeTab tabName).visibleTabs = t.visibleTabs.filter (stays [tabName]) ∧
      nearest (stays [tabName]) t.visibleTabs t.activeTab =
        some (t.removeTab tabName).activeTab := by
  by_cases hevent : tabName = eventLog
  · have hall : ∀ x, stays [tabName] x = true := by
      intro x
      simp [stays, hevent]
    have hsame : t.removeTab tabName = t := if_pos hevent
    rw [hsame, List.filter_eq_self.mpr fun x _ => hall x]
    exact ⟨rfl, nearest_self (hall _)⟩
  · have hstays : stays [tabName] = fun x => decide (x ≠ tabName) := by
      funext x
      simp only [stays, List.contains_cons, List.contains_nil, Bool.or_false]
      by_cases hx : x = tabName
      · simp [hx, hevent]
      · simp [hx]
    have hopen : t.removeTab tabName = ⟨t.visibleTabs.filter (· ≠ tabName),
        (t.removeTab tabName).activeTab⟩ := by
      unfold removeTab
      rw [if_neg hevent]
    refine ⟨?_, ?_⟩
    · rw [hopen, hstays]
    · rw [hstays]
      unfold removeTab
      rw [if_neg hevent]
      by_cases hactive : t.activeTab = tabName
      · obtain ⟨before, left, after, hsplit, hnot, hidx⟩ :=
          left_neighbour h (hactive ▸ h.active) hevent
        have hleft : t.visibleTabs[before.length]? = some left := by simp [hsplit]
        simp only [if_pos hactive, hidx, Option.getD_some, Nat.add_sub_cancel, hleft]
        rw [hactive, hsplit, if_pos (Nat.succ_pos _)]
        exact nearest_ne hnot
      · rw [if_neg hactive]
        exact nearest_self (decide_eq_true hactive)

theorem valid_removeTab (h : t.Valid) : (t.removeTab tabName).Valid := by
  obtain ⟨htabs, hactive⟩ := @removeTab_eq t tabName h
  refine ⟨?_, ?_, ?_⟩
  · rw [htabs]
    exact h.nodup.filter _
  · obtain ⟨rest, hrest⟩ := List.head?_eq_some_iff.mp h.first
    rw [htabs, hrest, List.filter_cons_of_pos (by simp [stays])]
    rfl
  · rw [htabs]
    exact nearest_mem h.active hactive

theorem valid_of_next {action : TabAction} {t' : Tabs} (h : t.Valid)
    (hnext : t.next action = some t') : t'.Valid := by
  cases action with
  | addTab tabName =>
    obtain rfl := Option.some.inj hnext
    exact valid_addTab h
  | removeTab tabName =>
    obtain rfl := Option.some.inj hnext
    exact valid_removeTab h
  | click tabName =>
    unfold next at hnext
    by_cases hmem : tabName ∈ t.visibleTabs
    · simp only [if_pos hmem] at hnext
      obtain rfl := Option.some.inj hnext
      exact ⟨h.nodup, h.first, hmem⟩
    · simp only [if_neg hmem] at hnext
      cases hnext

theorem valid_of_reach (h : Reach (Steps next) start t) : t.Valid :=
  h.invariant_steps (fun _ _ _ => valid_of_next) valid_start

theorem stays_cons (names : List Str) (tab : Str) :
    stays (tabName :: names) tab = (stays [tabName] tab && stays names tab) := by
  by_cases hevent : tab = eventLog
  · simp [stays, hevent]
  · simp [stays, hevent]

/-- Closing several tabs is one filtering, and one way to the nearest tab that stays. -/
theorem removeTabs_eq (names : List Str) (h : t.Valid) :
    (t.removeTabs names).visibleTabs = t.visibleTabs.filter (stays names) ∧
      nearest (stays names) t.visibleTabs t.activeTab =
        some (t.removeTabs names).activeTab := by
  induction names generalizing t with
  | nil =>
    have hall : ∀ x, stays [] x = true := by simp [stays]
    rw [List.filter_eq_self.mpr fun x _ => hall x]
    exact ⟨rfl, nearest_self (hall _)⟩
  | cons tabName names ih =>
    obtain ⟨htabs, hactive⟩ := @removeTab_eq t tabName h
    obtain ⟨hrest, hfocus⟩ := ih (@valid_removeTab t tabName h)
    have hboth : stays (tabName :: names) = fun x => stays [tabName] x && stays names x :=
      funext fun x => stays_cons names x
    refine ⟨?_, ?_⟩
    · have hclosed : (t.removeTabs (tabName :: names)).visibleTabs =
          (t.removeTab tabName).visibleTabs.filter (stays names) := hrest
      rw [hclosed, htabs, List.filter_filter, hboth]
      exact List.filter_congr fun x _ => Bool.and_comm _ _
    · rw [hboth, ← nearest_filter h.nodup h.active hactive, ← htabs]
      exact hfocus

theorem stays_perm {names names' : List Str} (h : names.Perm names') :
    stays names = stays names' := by
  funext tab
  have hmem : names.contains tab = names'.contains tab := by
    rw [Bool.eq_iff_iff]
    simp [h.mem_iff]
  simp only [stays, hmem]

end Tabs

/-- In every reachable state of the tab bar no tab is there twice, the event log is the
first, and the active tab is visible. -/
theorem tabs_invariant (t : Tabs) (h : Reach (Steps Tabs.next) .start t) :
    t.visibleTabs.Nodup ∧ t.visibleTabs.head? = some eventLog ∧
      t.activeTab ∈ t.visibleTabs := by
  have hvalid := Tabs.valid_of_reach h
  exact ⟨hvalid.nodup, hvalid.first, hvalid.active⟩

/-- The tabs are closed in any order with the same outcome: those that stay are visible, and
the active tab stays active or hands the focus to the nearest to its left that stays. -/
theorem removeTabs_perm (t : Tabs) (h : Reach (Steps Tabs.next) .start t)
    (names names' : List Str) (hperm : names.Perm names') :
    t.removeTabs names' = t.removeTabs names ∧
    (t.removeTabs names).visibleTabs = t.visibleTabs.filter (Tabs.stays names) ∧
    (Tabs.stays names t.activeTab = true → (t.removeTabs names).activeTab = t.activeTab) ∧
    (Tabs.stays names t.activeTab = false → ∃ before between after,
      t.visibleTabs = before ++ (t.removeTabs names).activeTab :: between ++
        t.activeTab :: after ∧
      Tabs.stays names (t.removeTabs names).activeTab = true ∧
      ∀ x ∈ between, Tabs.stays names x = false) := by
  have hvalid := Tabs.valid_of_reach h
  obtain ⟨htabs, hactive⟩ := Tabs.removeTabs_eq names hvalid
  obtain ⟨htabs', hactive'⟩ := Tabs.removeTabs_eq names' hvalid
  obtain ⟨hkept, hsame, hleft⟩ := nearest_cases hvalid.active hactive
  refine ⟨?_, htabs, hsame, ?_⟩
  · rw [← Tabs.stays_perm hperm] at htabs' hactive'
    rw [hactive] at hactive'
    exact congrArg₂ Tabs.mk (htabs'.trans htabs.symm) (Option.some.inj hactive').symm
  · intro hgone
    obtain ⟨before, between, after, hsplit, hnone⟩ := hleft hgone
    exact ⟨before, between, after, hsplit, hkept, hnone⟩

/-- Three tabs behind the event log, the last of them active. -/
def threeTabs : Tabs := ⟨[eventLog, "A".toList, "B".toList, "C".toList], "C".toList⟩

def threeTabsRun : List TabAction :=
  [.addTab "A".toList, .addTab "B".toList, .addTab "C".toList]

theorem tabs_invariant_threeTabs : threeTabs.activeTab ∈ threeTabs.visibleTabs :=
  (tabs_invariant threeTabs (reach_runLabels threeTabsRun rfl)).2.2

/-- The focus passes over `B`, whichever of the two is closed first. -/
theorem removeTabs_perm_threeTabs :
    threeTabs.removeTabs ["C".toList, "B".toList] =
        threeTabs.removeTabs ["B".toList, "C".toList] ∧
      threeTabs.removeTabs ["B".toList, "C".toList] = ⟨[eventLog, "A".toList], "A".toList⟩ ∧
      ∃ before between after,
        threeTabs.visibleTabs = before ++ "A".toList :: between ++ "C".toList :: after ∧
        ∀ x ∈ between, Tabs.stays ["B".toList, "C".toList] x = false := by
  obtain ⟨hsame, htabs, _, hleft⟩ :=
    removeTabs_perm threeTabs (reach_runLabels threeTabsRun rfl) _ _
      (.swap "C".toList "B".toList [])
  obtain ⟨before, between, after, hsplit, _, hnone⟩ := hleft (by decide)
  exact ⟨hsame, congrArg₂ Tabs.mk htabs rfl, before, between, after, hsplit, hnone⟩

end AppComponts
