import Mathlib.Logic.Function.Basic
import QuantileMonitor.Proofs.Device.Display
import QuantileMonitor.Proofs.Monitor.Polling

/-!
# How a pair of numbers is spelled

Whether a part of the selection is a pair of numbers is decided by its text: only a part that reads as its
device is displayed is left to be looked up. Another spelling of the same device becomes its name, and its
depth is looked for under this name.
-/

namespace QuantileMonitor.Monitor

open Device Poll Text

variable {tree : SysTree} {n : Names} {key : EntityKey} {s : Selected} {selected : List Selected}
  {names : EntityKey → String}

def called (tree : SysTree) (n : Names) (key : EntityKey) : String :=
  (n.known[key]?).getD ((n.lookUp tree key).getD key.display)

theorem name_fst (n : Names) (tree : SysTree) (key : EntityKey) : (n.name tree key).1 = called tree n key := by
  rw [Names.name, called]
  split
  next name h => rw [h, Option.getD_some]
  next h => rw [h, Option.getD_none]

theorem called_insert (n : Names) (tree : SysTree) (key : EntityKey) (name : String) :
    called tree (n.insert key name) = Function.update (called tree n) key name := by
  funext other
  by_cases hkey : other = key
  · subst hkey
    simp [called, Names.insert]
  · have hlookUp : (n.insert key name).lookUp tree other = n.lookUp tree other := by cases other <;> rfl
    have hknown : (n.insert key name).known[other]? = n.known[other]? := by
      rw [Names.insert, Std.HashMap.getElem?_insert, if_neg (by simpa using Ne.symm hkey)]
    rw [Function.update_of_ne hkey, called, called, hlookUp, hknown]

theorem called_name (n : Names) (tree : SysTree) (key : EntityKey) :
    called tree (n.name tree key).2 = called tree n := by
  rw [Names.name]
  split
  next => rfl
  next h =>
    have hname : (n.lookUp tree key).getD key.display = called tree n key := by
      rw [called, h, Option.getD_none]
    dsimp only
    rw [called_insert, hname, Function.update_eq_self]

theorem called_ofGroups (groups : List String) (tree : SysTree) (d : DeviceId) :
    called tree (.ofGroups groups) (.device d) = (tree.deviceName d).getD d.display := by
  have hknown : (Names.ofGroups groups).known[EntityKey.device d]? = none := Std.HashMap.getElem?_empty
  rw [called, hknown, Option.getD_none, Names.lookUp, EntityKey.display]

def goesBy (names : EntityKey → String) (s : Selected) : String :=
  if s.name = s.id.display then names (.device s.id) else s.name

/-- From then on the device keeps the name that it was opened by. -/
def learn (names : EntityKey → String) (s : Selected) : EntityKey → String :=
  Function.update names (.device s.id) (goesBy names s)

def goBy : (EntityKey → String) → List Selected → List String
  | _, [] => []
  | names, s :: selected => goesBy names s :: goBy (learn names s) selected

theorem called_seedName (n : Names) (tree : SysTree) (s : Selected) :
    called tree (seedName n s) = learn (called tree n) s := by
  rw [seedName, learn, goesBy]
  split_ifs with h
  · rw [Function.update_eq_self]
  · exact called_insert n tree (.device s.id) s.name

def openAll (tree : SysTree) (named : List (EntityKey × String)) : Except StartError (List Source) :=
  named.mapM fun (key, name) => (openSource tree.files key (tree.inflightPath name)).mapError (.depth name)

theorem openSources_eq (tree : SysTree) (selected : List Selected) (n : Names) :
    (openSources tree selected n).1 =
      openAll tree ((deviceKeys selected).zip (goBy (called tree n) selected)) := by
  induction selected generalizing n with
  | nil => rfl
  | cons s selected ih =>
    have hname : ((seedName n s).name tree (.device s.id)).1 = goesBy (called tree n) s := by
      rw [name_fst, called_seedName, learn, Function.update_self]
    have hrest := ih ((seedName n s).name tree (.device s.id)).2
    rw [called_name, called_seedName] at hrest
    rw [openSources_cons, deviceKeys, List.map_cons, goBy, List.zip_cons_cons, openAll, List.mapM_cons]
    dsimp only
    rw [hname]
    cases hopen : openSource tree.files (.device s.id) (tree.inflightPath (goesBy (called tree n) s)) with
    | error cause => rfl
    | ok source =>
      dsimp only
      rw [hrest]
      rfl

theorem seedName_eq_self_iff : (∀ n, seedName n s = n) ↔ s.name = s.id.display := by
  constructor
  · intro hall
    by_contra hne
    have hknown := congrArg (fun n : Names => n.known[EntityKey.device s.id]?) (hall (.ofGroups []))
    simp [seedName, hne, Names.insert, Names.ofGroups] at hknown
  · intro h n
    exact if_pos h

def respelled (s : Selected) : Selected := if ':' ∈ s.name.toList then displayed s.id else s

theorem respelled_id (s : Selected) : (respelled s).id = s.id := by
  rw [respelled]
  split_ifs
  · rfl
  · rfl

theorem goesBy_respelled_iff (names : EntityKey → String) (s : Selected) :
    goesBy names s = goesBy names (respelled s) ↔
      (':' ∈ s.name.toList → s.name = s.id.display ∨ s.name = names (.device s.id)) := by
  rw [respelled]
  split_ifs with hcolon
  · have hdisplayed : goesBy names (displayed s.id) = names (.device s.id) := if_pos rfl
    rw [hdisplayed, goesBy]
    split_ifs with hname
    · simp [hname]
    · simp [hname, hcolon]
  · simp [hcolon]

def learned (names : EntityKey → String) (selected : List Selected) : EntityKey → String :=
  selected.foldl learn names

theorem goBy_respelled_iff (names : EntityKey → String) (selected : List Selected) :
    goBy names selected = goBy names (selected.map respelled) ↔
      ∀ front s back, selected = front ++ s :: back → ':' ∈ s.name.toList →
        s.name = s.id.display ∨ s.name = learned names (front.map respelled) (.device s.id) := by
  induction selected generalizing names with
  | nil => simp [goBy]
  | cons s selected ih =>
    have hlearn : goesBy names s = goesBy names (respelled s) → learn names s = learn names (respelled s) := by
      intro h
      rw [learn, learn, respelled_id, h]
    rw [List.map_cons, goBy, goBy, List.cons.injEq]
    constructor
    · rintro ⟨hfirst, hrest⟩ front t back heq
      rw [hlearn hfirst, ih] at hrest
      rcases front with _ | ⟨u, front⟩
      · cases heq
        exact (goesBy_respelled_iff names s).mp hfirst
      · cases heq
        exact hrest front t back rfl
    · intro hall
      have hfirst := (goesBy_respelled_iff names s).mpr (hall [] s selected rfl)
      refine ⟨hfirst, ?_⟩
      rw [hlearn hfirst, ih]
      intro front t back heq
      exact hall (s :: front) t back (by rw [heq, List.cons_append])

/-- Every pair of numbers that is accepted is left to be looked up if and only if it is spelled as its device
is displayed. To spell all pairs so changes the names that devices are opened by, unless each pair that is
spelled otherwise reads as the name that its device goes by already. -/
theorem spelling_matters_iff (tree : SysTree) :
    (∀ part s, ':' ∈ part → selectPart tree part = .ok s →
      selectPart tree s.id.display.toList = .ok (respelled s) ∧
        ∃ major minor, Literal part major minor ∧ s.id.Reached major minor ∧
          ((∀ n, seedName n s = n) ↔ DeviceId.Fits major minor ∧
            part = Nat.toDigits 10 major ++ ':' :: Nat.toDigits 10 minor)) ∧
    (∀ groups d, called tree (.ofGroups groups) (.device d) = (tree.deviceName d).getD d.display) ∧
    ∀ selected n,
      (openSources tree selected n).1 =
        openAll tree ((deviceKeys selected).zip (goBy (called tree n) selected)) ∧
      (goBy (called tree n) selected = goBy (called tree n) (selected.map respelled) ↔
        ∀ front s back, selected = front ++ s :: back → ':' ∈ s.name.toList →
          s.name = s.id.display ∨ s.name = learned (called tree n) (front.map respelled) (.device s.id)) := by
  refine ⟨fun part s hcolon h => ?_, fun groups d => called_ofGroups groups tree d, fun selected n => ?_⟩
  · obtain ⟨major, minor, hliteral⟩ := exists_literal hcolon h
    obtain ⟨hname, hreached⟩ := hliteral.selected h
    have hrespelled : respelled s = displayed s.id := by rw [respelled, if_pos (by simpa [hname] using hcolon)]
    refine ⟨hrespelled ▸ selectPart_display tree s.id, major, minor, hliteral, hreached, ?_⟩
    rw [seedName_eq_self_iff, ← eq_display_iff hliteral hreached, hname, ← String.toList_inj,
      String.toList_ofList]
  · exact ⟨openSources_eq tree selected n, goBy_respelled_iff (called tree n) selected⟩

section Zero

variable {γ : Type} {settings : Settings} {files : Files}

theorem plan_eq_map_openSources {n : Names} (hgroups : settings.groups = []) (hne : selected ≠ [])
    (htargets : pollTargets settings tree = .ok selected) :
    (plan settings tree n).1 = (openSources tree selected n).1.map fun sources =>
      ⟨.ofParts sources [] .all, fullScale settings.barWidth []⟩ := by
  obtain ⟨s, selected, rfl⟩ := List.exists_cons_of_ne_nil hne
  rw [plan, htargets]
  dsimp only
  rcases openSources tree (s :: selected) n with ⟨_ | sources, n'⟩
  · rfl
  · simp only [hgroups, openGroups]
    rfl

theorem start_eq_map_openSources (draws : EntityKey → γ × γ) (now : Instant) (hcheck : settings.check = .ok ())
    (hmode : settings.mode = .queue) (hgroups : settings.groups = []) (hne : selected ≠ [])
    (htargets : pollTargets settings ⟨settings.sysRoot, files⟩ = .ok selected) :
    ∃ m, start settings files draws now =
      (openSources ⟨settings.sysRoot, files⟩ selected (.ofGroups [])).1.map m := by
  have hnames : groupNames settings = [] := by rw [groupNames, hgroups, List.map_nil]
  refine ⟨fun sources => ofPlan settings ⟨.ofParts sources [] .all, fullScale settings.barWidth []⟩
    (plan settings ⟨settings.sysRoot, files⟩ (.ofGroups [])).2 draws now, ?_⟩
  rw [start, hcheck]
  simp only [hmode, hnames, plan_eq_map_openSources hgroups hne htargets]
  cases (openSources ⟨settings.sysRoot, files⟩ selected (.ofGroups [])).1 with
  | error e => rfl
  | ok sources => rfl

def numberedTree : Files where
  nodes := [(["/", "sys"], .directory), (["/", "sys", "block"], .directory),
    (["/", "sys", "block", "sda"], .directory), (["/", "sys", "block", "sda", "inflight"], .file 0),
    (["/", "sys", "dev"], .directory), (["/", "sys", "dev", "block"], .directory),
    (["/", "sys", "dev", "block", "8:0"], .directory),
    (["/", "sys", "dev", "block", "8:0", "uevent"], .file 1)]
  contents := #["1 2\n".toUTF8, "MAJOR=8\nMINOR=0\nDEVNAME=sda\n".toUTF8]

def spelled (devices : String) : Settings := { mode := .queue, devices }

theorem numberedTree_deviceName : SysTree.deviceName ⟨"/sys", numberedTree⟩ disk = some "sda" := by
  decide +kernel

theorem spelled_targets :
    pollTargets (spelled "08:0") ⟨"/sys", numberedTree⟩ = .ok [⟨"08:0", disk⟩] ∧
      pollTargets (spelled "8:0") ⟨"/sys", numberedTree⟩ = .ok [⟨"8:0", disk⟩] := by
  constructor
  · apply eq_ok_of_toOption
    decide +kernel
  · apply eq_ok_of_toOption
    decide +kernel

theorem goBy_spelled :
    goBy (called ⟨"/sys", numberedTree⟩ (.ofGroups [])) [⟨"08:0", disk⟩] = ["08:0"] ∧
      goBy (called ⟨"/sys", numberedTree⟩ (.ofGroups [])) [⟨"8:0", disk⟩] = ["sda"] := by
  have hother : "08:0" ≠ disk.display := by decide +kernel
  have hdisplay : "8:0" = disk.display := by decide +kernel
  rw [goBy, goesBy, if_neg hother, goBy, goBy, goesBy, if_pos hdisplay, goBy, called_ofGroups,
    numberedTree_deviceName]
  exact ⟨rfl, rfl⟩

theorem start_spelled {name : String} {opened : List String} (draws : EntityKey → γ × γ) (now : Instant)
    (htargets : pollTargets (spelled name) ⟨"/sys", numberedTree⟩ = .ok [⟨name, disk⟩])
    (hopened : goBy (called ⟨"/sys", numberedTree⟩ (.ofGroups [])) [⟨name, disk⟩] = opened) :
    ∃ m, start (spelled name) numberedTree draws now =
      (openAll ⟨"/sys", numberedTree⟩ ([EntityKey.device disk].zip opened)).map m := by
  obtain ⟨m, hm⟩ := start_eq_map_openSources draws now rfl rfl rfl (List.cons_ne_nil _ []) htargets
  rw [openSources_eq] at hm
  exact ⟨m, hopened ▸ hm⟩

theorem spelling_matters_iff_zero :
    ¬(∀ n, seedName n ⟨"08:0", disk⟩ = n) ∧ (∀ n, seedName n ⟨"8:0", disk⟩ = n) ∧
      goBy (called ⟨"/sys", numberedTree⟩ (.ofGroups [])) [⟨"08:0", disk⟩] ≠
        goBy (called ⟨"/sys", numberedTree⟩ (.ofGroups [])) [respelled ⟨"08:0", disk⟩] := by
  obtain ⟨hpart, hcalled, hrun⟩ := spelling_matters_iff ⟨"/sys", numberedTree⟩
  have hother : Literal "08:0".toList 8 0 := ⟨['0', '8'], ['0'], by decide, by decide, by decide⟩
  have hdisplay : Literal "8:0".toList 8 0 := ⟨['8'], ['0'], by decide, by decide, by decide⟩
  refine ⟨fun hall => ?_, ?_, fun hsame => ?_⟩
  · obtain ⟨-, major, minor, hliteral, -, hiff⟩ :=
      hpart "08:0".toList ⟨"08:0", disk⟩ (by decide) (eq_ok_of_toOption (by decide +kernel))
    obtain ⟨rfl, rfl⟩ := hliteral.unique hother
    exact absurd (hiff.mp hall).2 (by decide)
  · obtain ⟨-, major, minor, hliteral, -, hiff⟩ :=
      hpart "8:0".toList ⟨"8:0", disk⟩ (by decide) (eq_ok_of_toOption (by decide +kernel))
    obtain ⟨rfl, rfl⟩ := hliteral.unique hdisplay
    exact hiff.mpr ⟨by decide, by decide⟩
  · obtain hname | hname := (hrun [⟨"08:0", disk⟩] (.ofGroups [])).2.mp hsame [] _ [] rfl (by decide)
    · exact absurd hname (by decide +kernel)
    · have hsda := (hname.trans (hcalled [] disk)).trans (by rw [numberedTree_deviceName]; rfl : _ = "sda")
      exact absurd hsda (by decide)

theorem zero_before_number_fails :
    start (spelled "08:0") numberedTree (fun _ => (([], []) : List Nat × List Nat)) 0 =
        .error (.depth "08:0" ⟨"/sys/block/08:0/inflight", .missing⟩) ∧
      ∃ m, start (spelled "8:0") numberedTree (fun _ => (([], []) : List Nat × List Nat)) 0 = .ok m := by
  constructor
  · obtain ⟨m, hm⟩ := start_spelled (fun _ => ([], [])) 0 spelled_targets.1 goBy_spelled.1
    rw [hm]
    rfl
  · obtain ⟨m, hm⟩ := start_spelled (fun _ => ([], [])) 0 spelled_targets.2 goBy_spelled.2
    have hopen : openAll ⟨"/sys", numberedTree⟩ ([EntityKey.device disk].zip ["sda"]) =
        .ok [⟨.device disk, .file 0⟩] := rfl
    exact ⟨m [⟨.device disk, .file 0⟩], by rw [hm, hopen]; rfl⟩

end Zero

end QuantileMonitor.Monitor
