/-
# Preferences over many runs

Runs of the program that have one folder for their settings have one set of preferences.  A run
starts from the preferences in the folder, and only a run that saves them changes them: it sets
those that its options give and keeps the others (`Options.updated`).  So after any runs the
preferences are those of the beginning, updated by the runs that saved them and ended well
(`stored_runs`).  The folder is all of a disk that such runs change, and what they do on the disk
they do in the folder alone (`run_ofDisk`).

What an option asks for in a run, it asks for as well when it was saved by a run before
(`Options.joined`).  The root is the exception: a snapshot that names one goes before the
preferences, but not before the options.
-/
import ComponentTree.CommandLine.Run
import ComponentTree.Proofs.Settings.Keeping
import ComponentTree.Proofs.Settings.OnDisk

namespace ComponentTree.CommandLine

open Json (Decoder)
open Settings (Disk Folder Preferences Store isKey)

/-! ### Settings in a folder -/

/-- A host that has its settings in a folder, and files that can only be read. -/
def Host.ofFolder (files : String → Option ByteArray) : Host (StateM Folder) where
  openSettings _ := return .ok Folder.store
  readFile path := return files path

/-- A run of the program: what it is asked for, and the files it finds. -/
structure Job where
  invocation : Invocation
  files : String → Option ByteArray

/-- What a run leaves, and the folder after it. -/
def Job.perform (j : Job) (f : Folder) : Result × Folder :=
  (run (Host.ofFolder j.files) j.invocation).run f

/-- The preferences in a folder, or the default where there are none or none that can be read. -/
def stored (f : Folder) : Preferences :=
  match f.entries.get? (Folder.fileName Preferences.key) with
  | some (.file bytes) => (Decoder.readBytes Preferences.decode bytes).toOption.getD .default
  | _ => .default

variable {f g : Folder} {options : Options} {command : Command} {files : String → Option ByteArray}

lemma isKey_key : isKey Preferences.key = true := by decide

/-- Where a store finds what is in a folder, it finds the preferences that are stored in it. -/
lemma loadOr_of_load {σ : Type} {store : Store (StateM σ)} {s : σ}
    (h : (store.loadBytes Preferences.key).run s = (f.load Preferences.key, s)) :
    (store.loadOr .default Preferences.decode Preferences.key).run s = (stored f, s) := by
  rw [Store.loadOr_run, Store.load_run isKey_key, h, Folder.load_of_isKey isKey_key, Folder.read,
    stored]
  cases f.entries.get? (Folder.fileName Preferences.key) with
  | none => rfl
  | some entry =>
    cases entry with
    | folder => rfl
    | file bytes => exact congrArg (·, s) (Settings.orDefault_document _ _ bytes)

/-! ### Options -/

namespace Options

/-- Nothing is asked for that preferences are about. -/
def Unset (options : Options) : Prop :=
  options.maxDepth = none ∧ options.all = false ∧ options.root = none

/-- The preferences with those in place that the options give. -/
def updated (options : Options) (p : Preferences) : Preferences where
  query := {
    maxDepth := match options.maxDepth with
      | some n => n
      | none => p.query.maxDepth
    collectAll := if options.all then true else p.query.collectAll }
  root := match options.root with
    | some id => some id
    | none => p.root

/-- The options that ask for what others ask for as well, where they do not ask for it
themselves. -/
def joined (options others : Options) : Options :=
  { options with
    maxDepth := options.maxDepth <|> others.maxDepth
    all := options.all || others.all
    root := options.root <|> others.root }

lemma updated_eq (options : Options) (p : Preferences) :
    options.updated p = { override options p with root := options.root <|> p.root } := by
  rw [updated, override]
  cases options.maxDepth <;> cases options.all <;> cases options.root <;> rfl

lemma override_of_unset (h : options.Unset) (p : Preferences) : override options p = p := by
  rw [override, h.1, h.2.1]
  rfl

lemma updated_of_unset (h : options.Unset) (p : Preferences) : options.updated p = p := by
  rw [updated, h.1, h.2.1, h.2.2]
  rfl

/-- Options override what the same options have made of the preferences before. -/
lemma override_joined (options saved : Options) (p : Preferences) :
    (override (options.joined saved) p).query = (override options (saved.updated p)).query := by
  rw [override, override, updated, joined]
  cases options.maxDepth <;> cases options.all <;> cases saved.maxDepth <;> cases saved.all <;> rfl

end Options

/-! ### One run -/

/-- The command of a query is none to show preferences. -/
def Command.IsQuery (command : Command) : Prop := ∀ save, command ≠ .prefs save

lemma Command.isQuery_or (command : Command) : command.IsQuery ∨ ∃ save, command = .prefs save := by
  cases command with
  | prefs save => exact .inr ⟨save, rfl⟩
  | _ => exact .inl fun _ => by simp

/-- What a run does once it has loaded these preferences from a store. -/
def proceed {m : Type → Type} [Monad m] (host : Host m) (store : Store m) (i : Invocation)
    (p : Preferences) : m Result :=
  match i.command with
  | .prefs save => showPreferences (some store) save (i.options.updated p)
  | command => query host i.options (override i.options p) command

/-- The ids that a query finds in the file at a path, or why it finds none. -/
def found (options : Options) (p : Preferences) (command : Command) (path : String)
    (bytes : Option ByteArray) : Except String (List String) := do
  let s ← snapshot path bytes
  let t ← tree options p path s
  answer t p.query.mode options.json command

/-- What a query leaves where files have these bytes. -/
def asked (files : String → Option ByteArray) (options : Options) (p : Preferences)
    (command : Command) : Result :=
  match options.tree with
  | none => .complaint "--tree <FILE> is required for queries"
  | some path =>
    match found options p command path (files path) with
    | .ok ids => .printed ((Json.Value.ofStrings ids).compact ++ "\n")
    | .error text => .complaint text

/-- What a run leaves that was to save preferences, by the outcome of that. -/
def shown (p : Preferences) : Except Settings.Error Unit → Result
  | .ok () => .printed (p.encode.pretty ++ "\n")
  | .error e => .complaint e.message

section Hosts

variable {σ : Type} {host : Host (StateM σ)} {store : Store (StateM σ)} {s : σ} {p : Preferences}

lemma proceed_of_isQuery (h : command.IsQuery) :
    proceed host store ⟨options, command⟩ p = query host options (override options p) command := by
  cases command with
  | prefs save => exact absurd rfl (h save)
  | _ => rfl

lemma proceed_prefs (save : Bool) : proceed host store ⟨options, .prefs save⟩ p =
    showPreferences (some store) save (options.updated p) := rfl

/-- A run goes on from the preferences it has loaded. -/
lemma run_eq {i : Invocation}
    (hopen : (host.openSettings i.options.configDir).run s = (.ok store, s))
    (hload : (store.loadOr .default Preferences.decode Preferences.key).run s = (p, s)) :
    (run host i).run s = (proceed host store i p).run s := by
  obtain ⟨options, command⟩ := i
  have hproceed : (run host ⟨options, command⟩).run s =
      (store.loadOr .default Preferences.decode Preferences.key >>=
        proceed host store ⟨options, command⟩).run s := by
    rw [run, StateT.run_bind, hopen]
    cases command with
    | prefs save =>
      have hstart : proceed host store ⟨options, .prefs save⟩ = fun p =>
          showPreferences (some store) save
            { override options p with root := options.root <|> p.root } :=
        funext fun p => by rw [← options.updated_eq p]; rfl
      rw [hstart]
      rfl
    | _ => rfl
  rw [hproceed, StateT.run_bind, hload]
  rfl

/-- A query takes nothing from the settings and leaves them alone. -/
lemma query_run (hread : ∀ path, (host.readFile path).run s = (files path, s)) :
    (query host options p command).run s = (asked files options p command, s) := by
  rw [query, asked]
  cases options.tree with
  | none => rfl
  | some path =>
    dsimp only
    rw [StateT.run_bind, hread]
    show StateT.run (match found options p command path (files path) with
      | .ok ids => pure (Result.printed ((Json.Value.ofStrings ids).compact ++ "\n"))
      | .error text => pure (Result.complaint text)) s = _
    cases found options p command path (files path) <;> rfl

/-- Preferences that are to be saved are shown if they could be. -/
lemma showPreferences_run : (showPreferences (some store) true p).run s =
    (shown p ((store.save Preferences.key p.encode).run s).1,
      ((store.save Preferences.key p.encode).run s).2) := by
  have hshow : showPreferences (some store) true p =
      store.save Preferences.key p.encode >>= fun result => pure (shown p result) := by
    refine congrArg (store.save Preferences.key p.encode >>= ·) (funext fun result => ?_)
    cases result <;> rfl
  rw [hshow, StateT.run_bind]
  rfl

end Hosts

/-! ### Options of the run and options saved before -/

/-- The snapshot that a run asks, if it asks one, names no root. -/
def NamesNoRoot (options : Options) (files : String → Option ByteArray) : Prop :=
  ∀ path ∈ options.tree, ∀ s, snapshot path (files path) = .ok s → s.root = none

lemma tree_joined {saved : Options} {p : Preferences} {path : String} {s : Snapshot}
    (h : saved.root = none ∨ s.root = none) :
    tree (options.joined saved) (override (options.joined saved) p) path s =
      tree options (override options (saved.updated p)) path s := by
  have hroot : ((options.root <|> saved.root) <|> s.root <|> p.root) =
      (options.root <|> s.root <|> (saved.updated p).root) := by
    rw [Options.updated_eq]
    obtain h | h := h <;> rw [h] <;> cases options.root <;> cases s.root <;> rfl
  rw [tree, tree]
  cases s.load with
  | error e => rfl
  | ok forest =>
    dsimp only
    rw [Options.override_joined]
    exact congrArg (fun root => Except.ok (Tree.mk _ root _)) hroot

/-- What an option asks for now, it asks for as well when it was saved before. -/
lemma asked_joined {saved : Options} {p : Preferences}
    (h : saved.root = none ∨ NamesNoRoot options files) (command : Command) :
    asked files (options.joined saved) (override (options.joined saved) p) command =
      asked files options (override options (saved.updated p)) command := by
  have hsame : (options.joined saved).tree = options.tree := rfl
  rw [asked, hsame, asked]
  cases htree : options.tree with
  | none => rfl
  | some path =>
    have hfound : found (options.joined saved) (override (options.joined saved) p) command path
        (files path) = found options (override options (saved.updated p)) command path
        (files path) := by
      rw [found, found]
      cases hs : snapshot path (files path) with
      | error text => rfl
      | ok s =>
        have hroot : saved.root = none ∨ s.root = none := h.imp_right fun h => h path htree s hs
        show tree (options.joined saved) _ path s >>= _ = _
        rw [tree_joined hroot, Options.override_joined]
        rfl
    dsimp only
    rw [hfound]

/-! ### Runs in a folder -/

lemma save_run (p : Preferences) (f : Folder) :
    (Folder.store.save Preferences.key p.encode).run f =
      f.save Preferences.key p.encode.pretty.toUTF8 := Store.save_run isKey_key _

lemma perform_eq (j : Job) (f : Folder) : j.perform f =
    (proceed (Host.ofFolder j.files) Folder.store j.invocation (stored f)).run f :=
  run_eq rfl (loadOr_of_load rfl)

lemma perform_query (h : command.IsQuery) (f : Folder) :
    Job.perform ⟨⟨options, command⟩, files⟩ f =
      (asked files options (override options (stored f)) command, f) := by
  rw [perform_eq, proceed_of_isQuery h]
  exact query_run fun _ => rfl

lemma perform_prefs (save : Bool) (f : Folder) :
    Job.perform ⟨⟨options, .prefs save⟩, files⟩ f =
      (showPreferences (some Folder.store) save (options.updated (stored f))).run f :=
  perform_eq _ f

/-- What a run that leaves this result has made of the preferences: if it was to save them and
ended well, those that its options give are set; otherwise nothing is. -/
def Job.saved (j : Job) (r : Result) (p : Preferences) : Preferences :=
  match j.invocation.command, r with
  | .prefs true, .printed _ => j.invocation.options.updated p
  | _, _ => p

lemma saved_of_isQuery (h : command.IsQuery) (r : Result) (p : Preferences) :
    Job.saved ⟨⟨options, command⟩, files⟩ r p = p := by
  cases command with
  | prefs save => exact absurd rfl (h save)
  | _ => rfl

lemma stored_congr (h : f.entries.get? (Folder.fileName Preferences.key) =
    g.entries.get? (Folder.fileName Preferences.key)) : stored f = stored g := by
  rw [stored, stored, h]

/-- Preferences that were saved are the ones that are stored. -/
lemma stored_save {p : Preferences}
    (h : (f.save Preferences.key p.encode.pretty.toUTF8).1 = .ok ()) :
    stored (f.save Preferences.key p.encode.pretty.toUTF8).2 = p := by
  have hfile := Folder.get?_fileName_save_of_ok h Preferences.key
  rw [if_pos rfl] at hfile
  rw [stored, hfile]
  dsimp only
  rw [p.reads.readBytes p.legible_encode]
  rfl

/-- **One run changes the stored preferences as its result says.** -/
lemma stored_perform (j : Job) (f : Folder) :
    stored (j.perform f).2 = j.saved (j.perform f).1 (stored f) := by
  obtain ⟨⟨options, command⟩, files⟩ := j
  obtain hquery | ⟨save, rfl⟩ := command.isQuery_or
  · rw [perform_query hquery, saved_of_isQuery hquery]
  rw [perform_prefs]
  -- What is only shown stays as it is.
  cases save with
  | false => rfl
  | true =>
    rw [showPreferences_run, save_run]
    dsimp only
    cases hsave : (f.save Preferences.key (options.updated (stored f)).encode.pretty.toUTF8).1 with
    | ok u => exact stored_save hsave
    | error e => exact stored_congr (Folder.get?_fileName_save_of_error hsave _)

/-- **A run on a disk is a run in the folder of its settings**, as long as that can be opened as it
stands, which it still can after the run.  What the run finds in files is what is on the disk. -/
theorem run_ofDisk {disk : Disk} {path home : String} {place : Settings.Place}
    (hopens : disk.Opens path Preferences.key place) {i : Invocation}
    (hpath : i.options.configDir.getD home = path) :
    ((run (Host.ofDisk home) i).run disk).1 =
        (Job.perform ⟨i, fun file => (disk.read file).toOption⟩ (disk.folder place)).1 ∧
      ((run (Host.ofDisk home) i).run disk).2.folder place =
        (Job.perform ⟨i, fun file => (disk.read file).toOption⟩ (disk.folder place)).2 ∧
      ((run (Host.ofDisk home) i).run disk).2.Opens path Preferences.key place := by
  have hopen : ((Host.ofDisk home).openSettings i.options.configDir).run disk =
      (.ok (Disk.store path), disk) := by
    obtain ⟨target, htarget⟩ := hopens.openFolder_eq
    show ((disk.openFolder (i.options.configDir.getD home)).1.map fun _ =>
      Disk.store (i.options.configDir.getD home),
        (disk.openFolder (i.options.configDir.getD home)).2) = _
    rw [hpath, htarget]
    rfl
  have hload : ((Disk.store path).loadBytes Preferences.key).run disk =
      ((disk.folder place).load Preferences.key, disk) :=
    congrArg (·, disk) (hopens.load_eq isKey_key)
  obtain ⟨options, command⟩ := i
  rw [run_eq hopen (loadOr_of_load hload), perform_eq]
  obtain hquery | ⟨save, rfl⟩ := command.isQuery_or
  · rw [proceed_of_isQuery hquery, proceed_of_isQuery hquery, query_run fun _ => rfl,
      query_run fun _ => rfl]
    exact ⟨rfl, rfl, hopens⟩
  cases save with
  | false => exact ⟨rfl, rfl, hopens⟩
  | true =>
    have hsave : ((Disk.store path).save Preferences.key
        (options.updated (stored (disk.folder place))).encode).run disk = _ :=
      (Store.save_run isKey_key _).trans (hopens.save_eq isKey_key _)
    rw [proceed_prefs, proceed_prefs, showPreferences_run, showPreferences_run, hsave, save_run]
    exact ⟨rfl, (Disk.folder_putFolder _ _ _ _).trans (if_pos rfl), hopens.after_save _⟩

/-! ### Many runs -/

/-- One more run, and what it has left. -/
def advance (s : List (Job × Result) × Folder) (j : Job) : List (Job × Result) × Folder :=
  (s.1 ++ [(j, (j.perform s.2).1)], (j.perform s.2).2)

/-- Runs one after the other, with what each has left, and the folder after them. -/
def runs (f : Folder) (jobs : List Job) : List (Job × Result) × Folder := jobs.foldl advance ([], f)

/-- The preferences after runs that have left these results. -/
def savedBy (history : List (Job × Result)) (p : Preferences) : Preferences :=
  history.foldl (fun p r => r.1.saved r.2 p) p

lemma stored_runs (f : Folder) (jobs : List Job) :
    stored (runs f jobs).2 = savedBy (runs f jobs).1 (stored f) := by
  induction jobs using List.reverseRecOn with
  | nil => rfl
  | append_singleton jobs j ih =>
    have hruns : runs f (jobs ++ [j]) = advance (runs f jobs) j := List.foldl_append
    rw [hruns, advance, stored_perform, savedBy, List.foldl_append, ih]
    rfl

/-- A run in the folder that asks for nothing that preferences are about starts from these. -/
def StartsFrom (f : Folder) (p : Preferences) : Prop :=
  ∀ options files, Options.Unset options →
    (∀ save, Job.perform ⟨⟨options, .prefs save⟩, files⟩ f =
      (showPreferences (some Folder.store) save p).run f) ∧
    ∀ command, command.IsQuery → Job.perform ⟨⟨options, command⟩, files⟩ f =
      (query (Host.ofFolder files) options p command).run f

lemma startsFrom_stored (f : Folder) : StartsFrom f (stored f) := by
  refine fun options files hunset => ⟨fun save => ?_, fun command hquery => ?_⟩
  · rw [perform_prefs, Options.updated_of_unset hunset]
  · rw [perform_eq, proceed_of_isQuery hquery, Options.override_of_unset hunset]

/-- A query asks for the same by options of its own and by options that a run before has saved. -/
lemma perform_joined {saved : Options} {others : String → Option ByteArray} {text : String}
    (hsaved : (Job.perform ⟨⟨saved, .prefs true⟩, others⟩ f).1 = .printed text)
    (hroot : saved.root = none ∨ NamesNoRoot options files) (hquery : command.IsQuery) :
    (Job.perform ⟨⟨options.joined saved, command⟩, files⟩ f).1 =
      (Job.perform ⟨⟨options, command⟩, files⟩
        (Job.perform ⟨⟨saved, .prefs true⟩, others⟩ f).2).1 := by
  have hafter : stored (Job.perform ⟨⟨saved, .prefs true⟩, others⟩ f).2 =
      saved.updated (stored f) := by
    rw [stored_perform, hsaved]
    rfl
  rw [perform_query hquery, perform_query hquery, hafter, asked_joined hroot]

/-- **Runs that share a folder share their preferences.**  After any runs, whatever was in the
folder before them, a run with none of the options that preferences are about starts from the
preferences of the beginning, updated in order by the runs that saved preferences and ended well.
And options that are saved by such a run have in a query after it the effect that they would have
had in the query itself, a root as long as the snapshot names none. -/
theorem runs_share_preferences (f : Folder) (jobs : List Job) :
    StartsFrom (runs f jobs).2 (savedBy (runs f jobs).1 (stored f)) ∧
      ∀ saved others text,
        (Job.perform ⟨⟨saved, .prefs true⟩, others⟩ (runs f jobs).2).1 = .printed text →
        ∀ options files, saved.root = none ∨ NamesNoRoot options files →
          ∀ command, command.IsQuery →
            (Job.perform ⟨⟨options.joined saved, command⟩, files⟩ (runs f jobs).2).1 =
              (Job.perform ⟨⟨options, command⟩, files⟩
                (Job.perform ⟨⟨saved, .prefs true⟩, others⟩ (runs f jobs).2).2).1 := by
  refine ⟨?_, fun saved others text hsaved options files hroot command hquery =>
    perform_joined hsaved hroot hquery⟩
  rw [← stored_runs]
  exact startsFrom_stored _

/-- Options that ask for all components. -/
def Options.collecting : Options := ⟨none, none, true, none, false, none⟩

/-- Options that name the file with the snapshot. -/
def Options.asking : Options := ⟨some "tree.json", none, false, none, false, none⟩

/-- Two components of one kind, the second within the first. -/
def sampleSnapshot : Snapshot where
  root := none
  types := []
  components := [⟨"page", none, none, .ofList [("kind", .string "box")]⟩,
    ⟨"mail", some "page", none, .ofList [("kind", .string "box")]⟩]

/-- The file with the snapshot. -/
def sampleFiles (_ : String) : Option ByteArray := some sampleSnapshot.encode.pretty.toUTF8

/-- A query collects all components after a run that has saved that all are to be collected. -/
theorem runs_share_preferences_sample :
    (Job.perform ⟨⟨Options.asking.joined .collecting, .down "page" "[kind=box]"⟩, sampleFiles⟩
        .empty).1 =
      (Job.perform ⟨⟨.asking, .down "page" "[kind=box]"⟩, sampleFiles⟩
        (Job.perform ⟨⟨.collecting, .prefs true⟩, fun _ => none⟩ .empty).2).1 :=
  (runs_share_preferences .empty []).2 .collecting _ _ rfl .asking sampleFiles (.inl rfl)
    (.down "page" "[kind=box]") (fun _ => by simp)

end ComponentTree.CommandLine
