/-
The directories of the applications.  The parts of an identifier are what a
client puts between carets, and they become components of paths that are
removed recursively.
-/
import Mathlib.Data.List.GetD
import Margot.Library.Paths
import Margot.Agora.Topics

namespace Margot.Agora

/-- What the server keeps a directory for. -/
inductive Place where
  | descriptions
  | configurations
  | predictions
  | models
  | observations
  | clusters
  | workspace
deriving Repr, DecidableEq

/-- The paths that the server is started with. -/
structure Roots where
  csvStorageRootPath : Path
  modelStorageRootPath : Path
  workspacePath : Path

def Roots.base (roots : Roots) : Place → Path
  | .descriptions => roots.csvStorageRootPath ++ ["descriptions".toList]
  | .configurations => roots.csvStorageRootPath ++ ["configurations".toList]
  | .predictions => roots.csvStorageRootPath ++ ["predictions".toList]
  | .models => roots.modelStorageRootPath
  | .observations => roots.csvStorageRootPath ++ ["observations".toList]
  | .clusters => roots.csvStorageRootPath ++ ["clusters".toList]
  | .workspace => roots.workspacePath

namespace Roots

/-- The directory of an application. -/
def directory (roots : Roots) (place : Place) (appId : ApplicationId) :
    Path :=
  resolve (roots.base place) appId.path

/-- The directory in which a launcher runs its plugin. -/
def pluginWorkingDir (roots : Roots) (appId : ApplicationId)
    (plugin : Text) : Path :=
  resolve (roots.base .workspace) (appId.path ++ [plugin])

/-- `FsHandler::erase` and `clear_launchers`, in this order. -/
def removed (roots : Roots) (appId : ApplicationId) (launchers : List Text) :
    List Path :=
  [roots.directory .descriptions appId, roots.directory .configurations appId,
    roots.directory .predictions appId, roots.directory .models appId,
    roots.directory .observations appId, roots.directory .clusters appId] ++
  launchers.map (roots.pluginWorkingDir appId)

/-- What the destructor of a handler with these launchers leaves. -/
def destroy (roots : Roots) (appId : ApplicationId) (launchers : List Text)
    (files : Files) : Files :=
  (roots.removed appId launchers).foldl removeAll files

end Roots

/-- Every part of the identifier names a directory. -/
def ApplicationId.Proper (appId : ApplicationId) : Prop :=
  ∀ part ∈ appId.path, isProper part = true

/-- The topic passes the filter, and the server extracts the identifier from
it. -/
def Extracts (topic : Text) (appId : ApplicationId) : Prop :=
  findFirstNotOf topicAcceptedCharacters topic = none ∧
    ∃ payload handled, handleIncomingMessage ⟨topic, payload⟩ = .ok handled ∧
      handled.appId = some appId

/-- The characters and the parts of an identifier that names directories. -/
def IsPart (part : Text) : Prop :=
  isProper part = true ∧ ∀ c ∈ part, isVersionChar c = true

/-- Where a directory for one kind lies in that for another kind, the way to it
does not begin as the path of an application. -/
def Roots.Apart (roots : Roots) : Prop :=
  ∀ place place' rest, roots.base place' = roots.base place ++ rest →
    rest ≠ [] → ∃ part ∈ rest.take 3, ¬ IsPart part

/-- The application has its directories to itself. -/
structure Isolated (roots : Roots) (appId : ApplicationId)
    (launchers : List Text) : Prop where
  inside : ∀ place, StrictlyInside (roots.base place) (roots.directory place appId)
  disjoint : ∀ topic other, Extracts topic other → other.Proper →
    other ≠ appId → ∀ place place',
      ¬ Nested (roots.directory place appId) (roots.directory place' other)
  others : ∀ topic other, Extracts topic other → other.Proper →
    other ≠ appId → ∀ files place path, roots.directory place other <+: path →
      roots.destroy appId launchers files path = files path
  outside : ∀ files path, (∀ place, place ≠ .workspace →
      ¬ roots.base place <+: path) → ¬ roots.directory .workspace appId <+: path →
    roots.destroy appId launchers files path = files path

section Extraction

/-- The handler that is called is that of the second token. -/
theorem exists_of_handled {message : MessageModel} {handled : Handled}
    {appId : ApplicationId}
    (hhandled : handleIncomingMessage message = .ok handled)
    (hid : handled.appId = some appId) :
    ∃ second ∈ tokenize message.topic "/".toList,
      getApplicationId second = .ok appId := by
  have hsystem : ∀ cid command,
      (handleSystemMessage cid command).appId = none := by
    intro cid command
    unfold handleSystemMessage
    repeat' split
    all_goals rfl
  have hobservation : ∀ found cid payload handled,
      handleObservation found cid payload = .ok handled →
        handled.appId = some appId → found = appId := by
    intro found cid payload handled hok hfound
    rw [handleObservation] at hok
    split at hok
    · obtain ⟨sec, -, hns⟩ := bind_eq_ok.mp hok
      obtain ⟨ns, -, hpure⟩ := bind_eq_ok.mp hns
      obtain rfl := pure_eq_ok.mp hpure
      exact Option.some.inj hfound
    · obtain rfl := Except.ok.inj hok
      contradiction
  rw [handleIncomingMessage] at hhandled
  split at hhandled
  · next cid messageType before htokens =>
      have hlength : 1 < (tokenize message.topic "/".toList).length := by
        rw [← List.length_reverse, htokens]
        simp
      have hsecond : (tokenize message.topic "/".toList).getD 1 [] ∈
          tokenize message.topic "/".toList := by
        rw [List.getD_eq_getElem _ _ hlength]
        exact List.getElem_mem hlength
      refine ⟨_, hsecond, ?_⟩
      split at hhandled
      · obtain rfl := Except.ok.inj hhandled
        rw [hsystem] at hid
        contradiction
      · obtain ⟨found, hfound, hpure⟩ := bind_eq_ok.mp hhandled
        obtain rfl := pure_eq_ok.mp hpure
        obtain rfl := Option.some.inj hid
        exact hfound
      · obtain ⟨found, hfound, hpure⟩ := bind_eq_ok.mp hhandled
        obtain rfl := pure_eq_ok.mp hpure
        obtain rfl := Option.some.inj hid
        exact hfound
      · obtain ⟨found, hfound, hok⟩ := bind_eq_ok.mp hhandled
        obtain rfl := hobservation found cid _ _ hok hid
        exact hfound
      · obtain rfl := Except.ok.inj hhandled
        contradiction
      · obtain rfl := Except.ok.inj hhandled
        contradiction
  · obtain rfl := Except.ok.inj hhandled
    contradiction

/-- The parts of an identifier that is extracted hold no separator. -/
theorem isVersionChar_of_extracts {topic : Text} {appId : ApplicationId}
    (hextracts : Extracts topic appId) {part : Text} (hpart : part ∈ appId.path)
    {c : Char} (hc : c ∈ part) : isVersionChar c = true := by
  obtain ⟨hpasses, payload, handled, hhandled, hid⟩ := hextracts
  obtain ⟨second, hsecond, hfound⟩ := exists_of_handled hhandled hid
  have hcaret := mem_of_mem_tokenize (mem_of_getApplicationId hfound hpart) hc
  have hslash := mem_of_mem_tokenize hsecond hcaret.1
  exact isVersionChar_of_topic (findFirstNotOf_eq_none.mp hpasses c hslash.1)
    hslash.2 hcaret.2

/-- Every identifier without separators is extracted from some topic. -/
theorem extracts_of_isVersionChar {appId : ApplicationId}
    (hchars : ∀ part ∈ appId.path, ∀ c ∈ part, isVersionChar c = true) :
    Extracts (clientTopic appId.str .welcome []) appId := by
  have hdelivers : Delivers appId.str appId [] := by
    simp only [ApplicationId.path, List.forall_mem_cons] at hchars
    exact delivers_str hchars.1 hchars.2.1 hchars.2.2.1 (by simp)
  exact ⟨hdelivers.passes .welcome, [], _, hdelivers.welcome [], rfl⟩

end Extraction

section Isolation

variable {roots : Roots} {appId other : ApplicationId}
  {launchers : List Text}

theorem directory_proper (hproper : appId.Proper) (place : Place) :
    roots.directory place appId = roots.base place ++ appId.path :=
  resolve_proper hproper

theorem ApplicationId.path_injective (hsame : appId.path = other.path) :
    appId = other := by
  obtain ⟨hname, hversion, hblock⟩ := by
    simpa [ApplicationId.path] using hsame
  cases appId
  cases other
  congr

theorem isPart_of_extracts {topic : Text} (hextracts : Extracts topic appId)
    (hproper : appId.Proper) : ∀ part ∈ appId.path, IsPart part :=
  fun part hpart => ⟨hproper part hpart,
    fun _ hc => isVersionChar_of_extracts hextracts hpart hc⟩

/-- The path of an application does not lead into the directory of another one
whose base directory lies below its own. -/
theorem not_nested_below {rest : Path}
    (hparts : ∀ part ∈ appId.path, IsPart part) (hsome : rest ≠ [])
    (haway : ∃ part ∈ rest.take 3, ¬ IsPart part) :
    ¬ Nested appId.path (rest ++ other.path) := by
  obtain ⟨part, hpart, hno⟩ := haway
  rintro (hbegins | hbegins)
  · -- the beginning of the path of the application is that of the way
    obtain ⟨tail, htail⟩ := hbegins
    have htake : rest.take 3 <+: appId.path := by
      have hlength : appId.path.length = 3 := rfl
      have hrest : (rest ++ other.path).take 3 = appId.path := by
        rw [← htail, ← hlength, List.take_left]
      rw [← hrest, List.take_append]
      exact List.prefix_append _ _
    exact hno (hparts part (htake.subset hpart))
  · have hlength := hbegins.length_le
    have hpositive := List.length_pos_of_ne_nil hsome
    simp only [List.length_append, ApplicationId.path, List.length_cons,
      List.length_nil] at hlength
    omega

/-- The directories of two applications whose parts all name a directory. -/
theorem not_nested_proper (hapart : roots.Apart)
    (hparts : ∀ part ∈ appId.path, IsPart part)
    (hother : ∀ part ∈ other.path, IsPart part)
    (hne : other ≠ appId) (place place' : Place) :
    ¬ Nested (roots.directory place appId) (roots.directory place' other) := by
  rw [directory_proper fun part hpart => (hparts part hpart).1,
    directory_proper fun part hpart => (hother part hpart).1]
  have hsame : ¬ Nested appId.path other.path := by
    rintro (hbegins | hbegins)
    · exact hne (ApplicationId.path_injective
        (hbegins.eq_of_length rfl)).symm
    · exact hne (ApplicationId.path_injective (hbegins.eq_of_length rfl))
  intro hnested
  rcases hnested.of_append with ⟨rest, hbase⟩ | ⟨rest, hbase⟩
  · rw [← hbase, List.append_assoc, nested_append_iff] at hnested
    by_cases hrest : rest = []
    · exact hsame (by simpa [hrest] using hnested)
    · exact not_nested_below hparts hrest
        (hapart place place' rest hbase.symm hrest) hnested
  · rw [← hbase, List.append_assoc, nested_append_iff, nested_comm] at hnested
    by_cases hrest : rest = []
    · rw [nested_comm] at hnested
      exact hsame (by simpa [hrest] using hnested)
    · exact not_nested_below hother hrest
        (hapart place' place rest hbase.symm hrest) hnested

/-- Without `..` a launcher runs its plugin below the directory of its
application. -/
theorem directory_prefix_pluginWorkingDir {plugin : Text}
    (hplugin : plugin ≠ "..".toList) :
    roots.directory .workspace appId <+: roots.pluginWorkingDir appId plugin := by
  rw [Roots.pluginWorkingDir, resolve_append_singleton, enter,
    if_neg hplugin]
  split
  · exact List.prefix_append _ _
  · exact List.prefix_rfl

/-- What is removed is below a directory of the application. -/
theorem exists_directory_prefix (hlaunchers : "..".toList ∉ launchers)
    {path : Path} (hpath : path ∈ roots.removed appId launchers) :
    ∃ place, roots.directory place appId <+: path := by
  rcases List.mem_append.mp hpath with herased | hcleared
  · simp only [List.mem_cons, List.not_mem_nil, or_false] at herased
    rcases herased with rfl | rfl | rfl | rfl | rfl | rfl
    all_goals exact ⟨_, List.prefix_rfl⟩
  · obtain ⟨plugin, hplugin, rfl⟩ := List.mem_map.mp hcleared
    refine ⟨.workspace, directory_prefix_pluginWorkingDir ?_⟩
    rintro rfl
    exact hlaunchers hplugin

theorem isolated_of_proper {topic : Text} (hextracts : Extracts topic appId)
    (hproper : appId.Proper) (hlaunchers : "..".toList ∉ launchers)
    (hapart : roots.Apart) : Isolated roots appId launchers := by
  have hparts := isPart_of_extracts hextracts hproper
  refine ⟨fun place => ?_, ?_, ?_, ?_⟩
  · rw [directory_proper hproper]
    refine ⟨List.prefix_append _ _, fun hsame => ?_⟩
    have hnone := List.append_right_eq_self.mp hsame
    contradiction
  · exact fun topic other hfound hother hne place place' =>
      not_nested_proper hapart hparts (isPart_of_extracts hfound hother) hne
        place place'
  · intro topic other hfound hother hne files place path hpath
    rw [Roots.destroy, foldl_removeAll, if_neg]
    rintro ⟨removed, hremoved, hprefix⟩
    obtain ⟨place', hplace⟩ := exists_directory_prefix hlaunchers hremoved
    exact not_nested_proper hapart hparts (isPart_of_extracts hfound hother)
      hne place' place (Nested.inside (hplace.trans hprefix) hpath)
  · intro files path houtside hworkspace
    rw [Roots.destroy, foldl_removeAll, if_neg]
    rintro ⟨removed, hremoved, hprefix⟩
    obtain ⟨place, hplace⟩ := exists_directory_prefix hlaunchers hremoved
    have hdirectory := hplace.trans hprefix
    by_cases hcleared : place = .workspace
    · subst hcleared
      exact hworkspace hdirectory
    · rw [directory_proper hproper] at hdirectory
      exact houtside place hcleared ((List.prefix_append _ _).trans hdirectory)

/-- An identifier that begins with the given parts and names a directory with
each of them. -/
def completed : List Text → ApplicationId
  | [appName] => ⟨appName, "x".toList, "x".toList⟩
  | [appName, version] => ⟨appName, version, "x".toList⟩
  | _ => ⟨"x".toList, "x".toList, "x".toList⟩

/-- When a part names no directory, the directory leaves its place or contains
that of another application. -/
theorem proper_of_isolated {topic : Text} (hextracts : Extracts topic appId)
    (hisolated : Isolated roots appId launchers) : appId.Proper := by
  by_contra himproper
  obtain ⟨hinside, hstrict⟩ := hisolated.inside .descriptions
  obtain ⟨entered, hentered, hsublist⟩ := exists_inside_resolve hinside
  have hfew : entered.length < 3 := by
    apply Nat.lt_of_le_of_lt hsublist.length_le
    have hsome : ∃ part ∈ appId.path, ¬ isProper part = true := by
      simpa [ApplicationId.Proper] using himproper
    exact List.length_filter_lt_length_iff_exists.mpr hsome
  have hsome : entered ≠ [] := by
    rintro rfl
    exact hstrict (hentered.trans (List.append_nil _))
  have hparts : ∀ part ∈ entered,
      isProper part = true ∧ ∀ c ∈ part, isVersionChar c = true := by
    intro part hpart
    obtain ⟨hmem, hproper⟩ := List.mem_filter.mp (hsublist.subset hpart)
    exact ⟨hproper, fun c hc => isVersionChar_of_extracts hextracts hmem hc⟩
  have hfiller : isProper "x".toList = true ∧
      ∀ c ∈ "x".toList, isVersionChar c = true := by decide
  have hcompleted : entered <+: (completed entered).path ∧
      ∀ part ∈ (completed entered).path,
        isProper part = true ∧ ∀ c ∈ part, isVersionChar c = true := by
    match entered, hsome, hfew with
    | [appName], _, _ =>
        refine ⟨⟨_, rfl⟩, ?_⟩
        simp only [completed, ApplicationId.path, List.forall_mem_cons]
        exact ⟨hparts _ (by simp), hfiller, hfiller, by simp⟩
    | [appName, version], _, _ =>
        refine ⟨⟨_, rfl⟩, ?_⟩
        simp only [completed, ApplicationId.path, List.forall_mem_cons]
        exact ⟨hparts _ (by simp), hparts _ (by simp), hfiller, by simp⟩
  have hother : (completed entered).Proper :=
    fun part hpart => (hcompleted.2 part hpart).1
  have hextracted := extracts_of_isVersionChar
    fun part hpart => (hcompleted.2 part hpart).2
  have hne : completed entered ≠ appId := by
    rintro hsame
    exact himproper (hsame ▸ hother)
  apply hisolated.disjoint _ _ hextracted hother hne .descriptions
    .descriptions
  refine .inl ?_
  rw [directory_proper hother]
  change resolve _ _ <+: _
  rw [hentered]
  exact (List.prefix_append_right_inj _).mpr hcompleted.1

/-- A component that ends with a letter names a directory. -/
theorem isProper_append_x (text : Text) : isProper (text ++ "x".toList) = true := by
  have hlast : ∀ other : Text, other.getLast? ≠ some 'x' →
      text ++ "x".toList ≠ other := by
    rintro other hother rfl
    exact hother (by simp)
  simp only [isProper, Bool.and_eq_true, decide_eq_true_eq]
  exact ⟨⟨hlast _ (by decide), hlast _ (by decide)⟩, hlast _ (by decide)⟩

/-- Another block of the application. -/
def sibling (appId : ApplicationId) : ApplicationId :=
  { appId with blockName := appId.blockName ++ "x".toList }

theorem sibling_ne (appId : ApplicationId) : sibling appId ≠ appId := by
  intro hsame
  have hblock := congrArg (·.blockName.length) hsame
  simp [sibling] at hblock

theorem isPart_sibling (hparts : ∀ part ∈ appId.path, IsPart part) :
    ∀ part ∈ (sibling appId).path, IsPart part := by
  simp only [ApplicationId.path, List.forall_mem_cons] at hparts ⊢
  refine ⟨hparts.1, hparts.2.1, ⟨isProper_append_x _, fun c hc => ?_⟩, by simp⟩
  rcases List.mem_append.mp hc with hc | hc
  · exact hparts.2.2.1.2 c hc
  · obtain rfl := List.mem_singleton.mp hc
    decide

theorem extracts_of_isPart (hparts : ∀ part ∈ appId.path, IsPart part) :
    Extracts (clientTopic appId.str .welcome []) appId :=
  extracts_of_isVersionChar fun part hpart => (hparts part hpart).2

/-- A plugin with the name `..` runs in the directory that the blocks of one
version share. -/
theorem launchers_of_isolated {topic : Text} (hextracts : Extracts topic appId)
    (hproper : appId.Proper) (hisolated : Isolated roots appId launchers) :
    "..".toList ∉ launchers := by
  intro hlauncher
  have hsibling := isPart_sibling (isPart_of_extracts hextracts hproper)
  have hproperSibling : (sibling appId).Proper :=
    fun part hpart => (hsibling part hpart).1
  have hkept := hisolated.others _ _ (extracts_of_isPart hsibling)
    hproperSibling (sibling_ne appId) (fun _ => some []) .workspace _
    List.prefix_rfl
  rw [Roots.destroy, foldl_removeAll, if_pos] at hkept
  · contradiction
  · refine ⟨roots.pluginWorkingDir appId "..".toList, ?_, ?_⟩
    · exact List.mem_append_right _ (List.mem_map_of_mem hlauncher)
    · rw [directory_proper hproperSibling, Roots.pluginWorkingDir,
        resolve_append_singleton, resolve_proper hproper, enter, if_pos rfl]
      have hshared : (roots.base .workspace ++ appId.path).dropLast =
          roots.base .workspace ++ [appId.appName, appId.version] := by
        rw [List.dropLast_append_of_ne_nil (by simp [ApplicationId.path])]
        rfl
      rw [hshared]
      exact (List.prefix_append_right_inj _).mpr ⟨_, rfl⟩

/-- The identifier of a path of three parts. -/
def ofPath (path : Path) : ApplicationId :=
  ⟨path.getD 0 [], path.getD 1 [], path.getD 2 []⟩

theorem path_ofPath {path : Path} (hlength : path.length = 3) :
    (ofPath path).path = path := by
  match path, hlength with
  | [appName, version, blockName], _ => rfl

/-- When the way from one base directory to another one begins as the path of an
application, the directory of that application contains directories of others. -/
theorem apart_of_isolated {topic : Text} (hextracts : Extracts topic appId)
    (hproper : appId.Proper) (hisolated : Isolated roots appId launchers) :
    roots.Apart := by
  intro place place' rest hbase hsome
  by_contra hway
  push Not at hway
  have hparts := isPart_of_extracts hextracts hproper
  have hdirectory : roots.directory place' appId =
      roots.base place ++ (rest ++ appId.path) := by
    rw [directory_proper hproper, hbase, List.append_assoc]
  have hlength : ((rest ++ appId.path).take 3).length = 3 := by
    rw [List.length_take, List.length_append]
    exact Nat.min_eq_left (Nat.le_add_left 3 rest.length)
  by_cases hsame : (rest ++ appId.path).take 3 = appId.path
  · -- the way leads through the application to its sibling
    have hsibling := isPart_sibling hparts
    have hproperSibling : (sibling appId).Proper :=
      fun part hpart => (hsibling part hpart).1
    refine hisolated.disjoint _ _ (extracts_of_isPart hsibling) hproperSibling
      (sibling_ne appId) place place' (.inl ?_)
    rw [directory_proper hproper, directory_proper hproperSibling, hbase,
      List.append_assoc, List.prefix_append_right_inj]
    have hlong : 3 ≤ (rest ++ [appId.appName, appId.version]).length := by
      have hpositive := List.length_pos_of_ne_nil hsome
      rw [List.length_append, List.length_cons, List.length_singleton]
      omega
    have htake : ∀ blockName : Text,
        (rest ++ [appId.appName, appId.version, blockName]).take 3 =
          (rest ++ [appId.appName, appId.version]).take 3 := by
      intro blockName
      have hlonger : ((rest ++ [appId.appName, appId.version]) ++
          [blockName]).take 3 = (rest ++ [appId.appName, appId.version]).take 3 :=
        List.take_append_of_le_length hlong
      rw [← hlonger, List.append_assoc]
      rfl
    have hfirst : (rest ++ (sibling appId).path).take 3 = appId.path :=
      (htake _).trans ((htake _).symm.trans hsame)
    rw [← hfirst]
    exact List.take_prefix 3 _
  · -- the way leads into the application from another one
    have hother : ∀ part ∈ (ofPath ((rest ++ appId.path).take 3)).path,
        IsPart part := by
      rw [path_ofPath hlength, List.take_append]
      intro part hpart
      rcases List.mem_append.mp hpart with hrest | hown
      · exact hway part hrest
      · exact hparts part (List.mem_of_mem_take hown)
    have hproperOther : (ofPath ((rest ++ appId.path).take 3)).Proper :=
      fun part hpart => (hother part hpart).1
    have hne : ofPath ((rest ++ appId.path).take 3) ≠ appId := by
      intro heq
      rw [← path_ofPath hlength, heq] at hsame
      exact hsame rfl
    refine hisolated.disjoint _ _ (extracts_of_isPart hother) hproperOther hne
      place' place (.inr ?_)
    rw [hdirectory, directory_proper hproperOther, path_ofPath hlength,
      List.prefix_append_right_inj]
    exact List.take_prefix 3 _

/-- An application that is extracted from a topic has its directories to itself
exactly when each part of its identifier names a directory, none of its plugins
is called `..`, and no base directory lies within the directories of
applications. -/
theorem isolated_iff (roots : Roots) (topic : Text) (appId : ApplicationId)
    (launchers : List Text) (hextracts : Extracts topic appId) :
    Isolated roots appId launchers ↔
      appId.Proper ∧ "..".toList ∉ launchers ∧ roots.Apart := by
  constructor
  · intro hisolated
    have hproper := proper_of_isolated hextracts hisolated
    exact ⟨hproper, launchers_of_isolated hextracts hproper hisolated,
      apart_of_isolated hextracts hproper hisolated⟩
  · rintro ⟨hproper, hlaunchers, hapart⟩
    exact isolated_of_proper hextracts hproper hlaunchers hapart

end Isolation

section Carets

/-- The directories of a server. -/
def server : Roots where
  csvStorageRootPath := ["storage".toList]
  modelStorageRootPath := ["models".toList]
  workspacePath := ["workspace".toList]

theorem isolated_iff_kernel :
    Extracts "margot/app^1.0^kernel/welcome/7".toList
        ⟨"app".toList, "1.0".toList, "kernel".toList⟩ ∧
      (Isolated server ⟨"app".toList, "1.0".toList, "kernel".toList⟩ [] ↔
        ApplicationId.Proper ⟨"app".toList, "1.0".toList, "kernel".toList⟩ ∧
          "..".toList ∉ [] ∧ server.Apart) := by
  have hextracts : Extracts "margot/app^1.0^kernel/welcome/7".toList
      ⟨"app".toList, "1.0".toList, "kernel".toList⟩ :=
    ⟨by decide +kernel, [], _, rfl, rfl⟩
  exact ⟨hextracts, isolated_iff server _ _ [] hextracts⟩

/-- An identifier of two carets is that of the storage itself. -/
theorem not_isolated_carets :
    ¬ ∀ (roots : Roots) (topic : Text) (appId : ApplicationId)
      (launchers : List Text), Extracts topic appId →
        Isolated roots appId launchers := by
  intro hall
  have hextracts : Extracts "margot/^^/welcome/7".toList ⟨[], [], []⟩ :=
    ⟨by decide +kernel, [], _, rfl, rfl⟩
  have hinside := (hall server _ _ [] hextracts).inside .descriptions
  exact absurd rfl hinside.2

end Carets

end Margot.Agora
