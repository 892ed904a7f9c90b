import DeclGraph.Artifact.File
import DeclGraph.Command.Terminal
import DeclGraph.Proofs.ArtifactRoundTrip
import DeclGraph.Proofs.DiskWrites
import DeclGraph.Proofs.TextFiles

/-!
# What commands do to files

A command looks at files until the graph is complete, and only then writes.  `Keeps` says
that a computation leaves the files as they are, and `Host.ReadOnly` that looking at files
is such a computation; whatever a command does before it writes is made of these.

`Loads` is what a command needs of the files to start, and `LoadFault` what may be wrong
with them.  Where something is wrong with the files or with the source, the
command ends with exit code 1, prints nothing and writes nothing.  Otherwise `extract`
gives the text of the graph and a line end, and with an output file it writes nothing but
that file and the directories that are missing on the way to it.  The file is read back
as the graph.

All this holds for every parser, every reader of YAML, every style and every form of log
lines (`Tools`), and for all checks of names and flags that keep texts and truth values.
-/

namespace DeclGraph

open Syntax (Node)

section Keeping

variable {σ α β : Type}

/-- A computation that leaves the state as it is. -/
def Keeps (a : StateM σ α) : Prop :=
  ∀ s, (a s).2 = s

theorem keeps_pure (x : α) : Keeps (pure x : StateM σ α) :=
  fun _ => rfl

theorem stateM_bind_apply (a : StateM σ α) (f : α → StateM σ β) (s : σ) :
    (a >>= f) s = f (a s).1 (a s).2 :=
  rfl

theorem Keeps.apply_eq
    {a : StateM σ α}
    (ha : Keeps a)
    (s : σ) :
    a s = ((a s).1, s) :=
  Prod.ext rfl (ha s)

/-- What follows such a computation starts from the same state. -/
theorem Keeps.bind_apply
    {a : StateM σ α}
    (ha : Keeps a)
    (f : α → StateM σ β) (s : σ) :
    (a >>= f) s = f (a s).1 s := by
  rw [stateM_bind_apply, ha s]

theorem Keeps.bind
    {a : StateM σ α} {f : α → StateM σ β}
    (ha : Keeps a)
    (hf : ∀ x, Keeps (f x)) :
    Keeps (a >>= f) := by
  intro s
  rw [ha.bind_apply]
  exact hf _ s

end Keeping

section Loading

variable {σ : Type}

/-- Looking at files does not change them. -/
structure Host.ReadOnly (h : Host (StateM σ)) : Prop where
  isFile (p : Path) : Keeps (h.isFile p)
  read (p : Path) : Keeps (h.read p)

/-- The configuration file for a source file, if there is one: the given one, or else the
one beside the source file. -/
def Host.configFor (h : Host (StateM σ)) (given : Option String) (source : Path) (s : σ) :
    Option Path :=
  match given with
  | some name => some (Path.ofText name)
  | none =>
    if (h.isFile (source.parent.child configName) s).1 then
      some (source.parent.child configName)
    else none

/-- The options for a source file: of its configuration file, or the defaults. -/
def Host.configured (h : Host (StateM σ)) (readYaml : Yaml.Reader) (given : Option String)
    (source : Path) (s : σ) : Except Refusal Options :=
  match h.configFor given source s with
  | some p => (h.loadOptions readYaml p s).1
  | none => .ok {}

/-- What may be wrong with the files of a command. -/
inductive LoadFault (h : Host (StateM σ)) (readYaml : Yaml.Reader) (given : Option String)
    (source : Path) (s : σ) : Prop
  | noFile
      (hfile : (h.isFile source s).1 = false) :
      LoadFault h readYaml given source s
  | config
      {message : String}
      (hconfig : h.configured readYaml given source s = .error (.told message)) :
      LoadFault h readYaml given source s
  | unreadable
      {f : ReadFault}
      (hread : (h.read source s).1 = .error f) :
      LoadFault h readYaml given source s
  | undecodable
      {bytes : List UInt8} {f : Text.DecodeFault}
      (hread : (h.read source s).1 = .ok bytes)
      (htext : readText bytes = .error f) :
      LoadFault h readYaml given source s

/-- The options and the text that a command starts with. -/
structure Loads (h : Host (StateM σ)) (readYaml : Yaml.Reader) (given : Option String)
    (source : Path) (s : σ) (options : Options) (text : String) : Prop where
  isFile : (h.isFile source s).1 = true
  configured : h.configured readYaml given source s = .ok options
  text : ∃ bytes, (h.read source s).1 = .ok bytes ∧ readText bytes = .ok text

variable
  {h : Host (StateM σ)} {readYaml : Yaml.Reader} {given : Option String} {source : Path} {s : σ}
  {options : Options} {text : String}

theorem Loads.not_loadFault
    (hl : Loads h readYaml given source s options text) :
    ¬ LoadFault h readYaml given source s := by
  obtain ⟨bytes, hbytes, htext⟩ := hl.text
  intro hf
  cases hf with
  | noFile hfile => cases hl.isFile.symm.trans hfile
  | config hconfig => cases hl.configured.symm.trans hconfig
  | unreadable hread => cases hbytes.symm.trans hread
  | undecodable hread hbad =>
      cases hbytes.symm.trans hread
      cases htext.symm.trans hbad

theorem Loads.unique
    {options' : Options} {text' : String}
    (hl : Loads h readYaml given source s options text)
    (hl' : Loads h readYaml given source s options' text') :
    options = options' ∧ text = text' := by
  obtain ⟨bytes, hbytes, htext⟩ := hl.text
  obtain ⟨bytes', hbytes', htext'⟩ := hl'.text
  cases hbytes.symm.trans hbytes'
  exact ⟨Except.ok.inj (hl.configured.symm.trans hl'.configured),
    Except.ok.inj (htext.symm.trans htext')⟩

namespace Host.ReadOnly

variable (hr : h.ReadOnly)
include hr

theorem keeps_loadOptions (readYaml : Yaml.Reader) (p : Path) : Keeps (h.loadOptions readYaml p) := by
  refine (hr.read p).bind fun r => ?_
  split <;> exact keeps_pure _

theorem findOptions_apply (readYaml : Yaml.Reader) (given : Option String) (source : Path)
    (s : σ) :
    h.findOptions readYaml given source s = (h.configured readYaml given source s, s) := by
  unfold Host.findOptions Host.configured Host.configFor
  cases given with
  | some name => exact (hr.keeps_loadOptions readYaml _).apply_eq s
  | none =>
      dsimp only
      rw [(hr.isFile _).bind_apply]
      cases (h.isFile (source.parent.child configName) s).1 with
      | true => exact (hr.keeps_loadOptions readYaml _).apply_eq s
      | false => rfl

theorem keeps_findOptions (readYaml : Yaml.Reader) (given : Option String) (source : Path) :
    Keeps (h.findOptions readYaml given source) := by
  intro s
  rw [hr.findOptions_apply]

/-- Loading leaves the files as they are.  It ends with what is wrong with the files, or
where the configuration breaks off, or with the options and the text. -/
theorem load_cases (readYaml : Yaml.Reader) (given : Option String) (source : Path) (s : σ) :
    (∃ message, h.load readYaml given source s = (.error (.told message), s) ∧
      LoadFault h readYaml given source s) ∨
    (∃ cause, h.load readYaml given source s = (.error (.broken cause), s) ∧
      h.configured readYaml given source s = .error (.broken cause)) ∨
    ∃ options text, h.load readYaml given source s = (.ok (options, text), s) ∧
      Loads h readYaml given source s options text := by
  unfold Host.load
  rw [(hr.isFile source).bind_apply]
  cases hfile : (h.isFile source s).1 with
  | false => exact .inl ⟨_, rfl, .noFile hfile⟩
  | true =>
      rw [if_neg (by decide), (hr.keeps_findOptions readYaml given source).bind_apply,
        hr.findOptions_apply]
      cases hconfig : h.configured readYaml given source s with
      | error r =>
          cases r with
          | told message => exact .inl ⟨message, rfl, .config hconfig⟩
          | broken cause => exact .inr (.inl ⟨cause, rfl, rfl⟩)
      | ok options =>
          dsimp only
          rw [(hr.read source).bind_apply]
          cases hread : (h.read source s).1 with
          | error f => exact .inl ⟨_, rfl, .unreadable hread⟩
          | ok bytes =>
              dsimp only
              cases htext : readText bytes with
              | error f => exact .inl ⟨_, rfl, .undecodable hread htext⟩
              | ok text =>
                  exact .inr (.inr ⟨options, text, rfl, hfile, hconfig, bytes, hread, htext⟩)

theorem load_of_loads
    (hl : Loads h readYaml given source s options text) :
    h.load readYaml given source s = (.ok (options, text), s) := by
  rcases hr.load_cases readYaml given source s with
    ⟨message, -, hfault⟩ | ⟨cause, -, hconfig⟩ | ⟨options', text', hload, hl'⟩
  · exact absurd hfault hl.not_loadFault
  · cases hl.configured.symm.trans hconfig
  · obtain ⟨rfl, rfl⟩ := hl.unique hl'
    exact hload

end Host.ReadOnly

end Loading

section Running

variable {σ : Type} {h : Host (StateM σ)} {tools : Tools} {i : Invocation} {s : σ}

/-- The faults of a pass that are told, and do not break a command off. -/
def Fault.Told : Fault → Prop
  | .malformed .. => True
  | .conflict .. => True
  | .tooDeep .. => True
  | .noElement => False
  | .noTarget => False

/-- What may be wrong before a graph is complete: with the files, or with the source. -/
inductive Invocation.Fails (h : Host (StateM σ)) (tools : Tools) (i : Invocation) (s : σ) : Prop
  | load
      (hload : LoadFault h tools.readYaml i.config (Path.ofText i.file) s) :
      Fails h tools i s
  | source
      {options : Options} {text : String} {f : Fault}
      (hloads : Loads h tools.readYaml i.config (Path.ofText i.file) s options text)
      (hfault : (extract options (tools.parse text)).outcome = .error f)
      (htold : f.Told) :
      Fails h tools i s

theorem Fault.Told.exists_refusal
    {f : Fault}
    (hf : f.Told)
    (tools : Tools) (source : Path) :
    ∃ message, f.refusal tools source = .told message := by
  cases f with
  | malformed => exact ⟨_, rfl⟩
  | conflict => exact ⟨_, rfl⟩
  | tooDeep => exact ⟨_, rfl⟩
  | noElement => exact hf.elim
  | noTarget => exact hf.elim

theorem Host.ReadOnly.keeps_load
    (hr : h.ReadOnly)
    (readYaml : Yaml.Reader) (given : Option String) (source : Path) :
    Keeps (h.load readYaml given source) := by
  intro s
  rcases hr.load_cases readYaml given source s with
    ⟨message, hload, -⟩ | ⟨cause, hload, -⟩ | ⟨options, text, hload, -⟩
  · rw [hload]
  · rw [hload]
  · rw [hload]

/-- A command that fails leaves the files as they are. -/
theorem Invocation.Fails.run_eq
    (hr : h.ReadOnly)
    (hf : i.Fails h tools s) :
    ∃ r, i.run h tools s = (r, s) ∧ exitCode r = 1 ∧ printed r = "" ∧
      ((∃ report, r = .ok report) ∨
        ∃ cause, h.configured tools.readYaml i.config (Path.ofText i.file) s =
          .error (.broken cause)) := by
  unfold Invocation.run
  dsimp only
  rw [(hr.keeps_load _ _ _).bind_apply]
  rcases hr.load_cases tools.readYaml i.config (Path.ofText i.file) s with
    ⟨message, hload, -⟩ | ⟨cause, hload, hconfig⟩ | ⟨options, text, hload, hloads⟩
  · rw [hload]
    exact ⟨_, rfl, rfl, rfl, .inl ⟨_, rfl⟩⟩
  · rw [hload]
    exact ⟨_, rfl, rfl, rfl, .inr ⟨cause, hconfig⟩⟩
  · cases hf with
    | load hfault => exact absurd hfault hloads.not_loadFault
    | source hloads' hfault htold =>
        obtain ⟨rfl, rfl⟩ := hloads.unique hloads'
        obtain ⟨message, hrefusal⟩ := htold.exists_refusal tools (Path.ofText i.file)
        rw [hload]
        dsimp only
        rw [hfault]
        dsimp only
        rw [hrefusal]
        exact ⟨_, rfl, rfl, rfl, .inl ⟨_, rfl⟩⟩

/-- A command that has a graph ends as the graph is presented. -/
theorem Loads.run_eq
    {options : Options} {text : String} {g : Graph}
    (hr : h.ReadOnly)
    (hl : Loads h tools.readYaml i.config (Path.ofText i.file) s options text)
    (hg : (extract options (tools.parse text)).outcome = .ok g) :
    ∃ log, i.run h tools s =
      ((i.command.present h tools g s).1.map fun out => { out, log },
        (i.command.present h tools g s).2) := by
  refine ⟨if i.verbose then (extract options (tools.parse text)).events else [], ?_⟩
  unfold Invocation.run
  dsimp only
  rw [(hr.keeps_load _ _ _).bind_apply, hr.load_of_loads hl]
  dsimp only
  rw [hg]
  dsimp only
  rw [stateM_bind_apply]
  cases (i.command.present h tools g s).1 with
  | error cause => rfl
  | ok out => rfl

end Running

section Extracting

variable {d d' : Disk} {indent : Option Int}

theorem Disk.readOnly_host : Disk.host.ReadOnly where
  isFile _ _ := rfl
  read _ _ := rfl

/-- The text of a graph with a line end behind it is read back from a file. -/
theorem Graph.Storable.readArtifact
    {checks : Checks} {g : Graph Points} {l : Layout} {text : String} {p : Path} {key : Key}
    (hkeep : checks.Keeping)
    (h : g.Storable)
    (htexts : g.Settled)
    (hwrite : g.write l = .ok text)
    (hfind : d.find p = .file key (text ++ "\n").toUTF8.toList) :
    ∃ g', Disk.host.readArtifact checks p d = (.ok g', d) ∧ g'.toJson = g.toJson := by
  obtain ⟨j, hjson, hplain, hread⟩ := h.exists_json hkeep htexts
  cases (Graph.write_eq_of_toJson hjson l).symm.trans hwrite
  have hkept : ∀ c ∈ (j.render l ++ "\n").toList, Text.isKept c = true := by
    rw [String.toList_append, Json.render, String.toList_ofList, ← List.all_eq_true, List.all_append,
      hplain.all_isKept_write]
    decide
  have hgap : (Json.spell "\n".toList).all Json.isLayout = true := by decide
  have hparse := Json.parse?_render_append hplain l (List.all_eq_true.1 hgap)
  have hdepth : j.depth ≤ (Points.plain (j.render l ++ "\n")).toList.length + 1 := by
    have hlength := hplain.depth_le_length_write l 0
    simp only [Points.toList, Json.render, String.toList_append, String.toList_ofList,
      List.length_map, List.length_append]
    omega
  refine ⟨⟨g.models.map Model.freeze⟩, ?_, toJson_freeze g⟩
  unfold Host.readArtifact
  rw [(Disk.readOnly_host.read p).bind_apply]
  have hbytes : (Disk.host.read p d).1 = .ok (j.render l ++ "\n").toUTF8.toList :=
    Disk.read_of_find hfind
  rw [hbytes]
  dsimp only
  rw [Text.readText_toUTF8 hkept]
  dsimp only
  rw [hread _ hparse hdepth]
  rfl

variable {tools : Tools} {g : Graph}

theorem present_of_no_output
    {σ : Type} {h : Host (StateM σ)} {text : String}
    (hwrite : g.spelled.write (layoutFor indent) = .ok text)
    (s : σ) :
    (Command.extract indent none).present h tools g s = (.ok (text ++ "\n"), s) := by
  unfold Command.present
  dsimp only
  rw [hwrite]
  rfl

variable (tools) in
/-- With an output file a command ends as the writing of the file does. -/
theorem present_of_output
    {text name : String} {outcome : Except WriteFault Unit}
    (hwrite : g.spelled.write (layoutFor indent) = .ok text)
    (hput : d.write (Path.ofText name) (text ++ "\n").toUTF8.toList = (outcome, d')) :
    ∃ out, (Command.extract indent (some name)).present Disk.host tools g d =
      (match outcome with
        | .error f => .error (.write f)
        | .ok () => .ok out, d') := by
  refine ⟨s!"Wrote {g.size} model(s) to '{(Path.ofText name).text}'.\n", ?_⟩
  have hhost : Disk.host.write (Path.ofText name) (text ++ "\n").toUTF8.toList d = (outcome, d') :=
    hput
  unfold Command.present
  dsimp only
  rw [hwrite]
  dsimp only
  rw [stateM_bind_apply, hhost]
  cases outcome with
  | error f => rfl
  | ok u => rfl

/-- What commands do to files, whatever the tools are.

* Let something be wrong with the source file, with the configuration that is chosen for
  it, or with the source itself.  Then a command ends with exit code 1, prints nothing and
  leaves the files as they are, whatever they are and whatever the command is.  It breaks
  off without a report only where the configuration does.
* Otherwise `extract` gives the text of the graph and a line end.  Without an output file
  it is printed.  An output file that can be written has it as its whole content, what else
  has changed are directories on the way to the file that were missing, and the file is
  read as a graph with the same JSON.  Where the file cannot be written, the command breaks
  off, and no more than such directories are new. -/
theorem commands_touch_output_only
    (checks : Checks)
    (hkeep : checks.Keeping)
    (tools : Tools) :
    (∀ {σ : Type} (h : Host (StateM σ)), h.ReadOnly →
      ∀ (i : Invocation) (s : σ), i.Fails h tools s →
        ∃ r, i.run h tools s = (r, s) ∧ exitCode r = 1 ∧ printed r = "" ∧
          ((∃ report, r = .ok report) ∨
            ∃ cause, h.configured tools.readYaml i.config (Path.ofText i.file) s =
              .error (.broken cause))) ∧
    ∀ (i : Invocation) (d : Disk) (options : Options) (text : String) (g : Graph)
        (indent : Option Int) (output : Option String),
      i.command = .extract indent output →
      Loads Disk.host tools.readYaml i.config (Path.ofText i.file) d options text →
      (extract options (tools.parse text)).outcome = .ok g →
      ∃ json, g.spelled.write (layoutFor indent) = .ok json ∧
        (output = none →
          ∃ report, i.run Disk.host tools d = (.ok report, d) ∧
            report.exit = 0 ∧ report.out = json ++ "\n") ∧
        (∀ name d', output = some name →
          d.write (Path.ofText name) (json ++ "\n").toUTF8.toList = (.ok (), d') →
          ∃ report key, i.run Disk.host tools d = (.ok report, d') ∧ report.exit = 0 ∧
            d'.find (Path.ofText name) = .file key (json ++ "\n").toUTF8.toList ∧
            d.get? key ≠ some .directory ∧
            (∀ k, k ≠ key → d'.get? k = d.get? k ∨
              (k ∈ Disk.way (Path.ofText name) ∧ d.get? k = none ∧ d'.get? k = some .directory)) ∧
            ∃ g', Disk.host.readArtifact checks (Path.ofText name) d' = (.ok g', d') ∧
              g'.toJson = g.spelled.toJson) ∧
        ∀ name f d', output = some name →
          d.write (Path.ofText name) (json ++ "\n").toUTF8.toList = (.error f, d') →
          i.run Disk.host tools d = (.error (.write f), d') ∧
            d.MakesOnly d' (Disk.way (Path.ofText name)) := by
  refine ⟨fun h hr i s hf => hf.run_eq hr, ?_⟩
  intro i d options text g indent output hcommand hloads hg
  obtain ⟨hstorable, hsettled⟩ := (storable_of_extract hg).1.spelled
  obtain ⟨json, hwrite, -⟩ := hstorable.read_write hkeep hsettled (layoutFor indent)
  obtain ⟨log, hrun⟩ := hloads.run_eq Disk.readOnly_host hg
  rw [hcommand] at hrun
  refine ⟨json, hwrite, ?_, ?_, ?_⟩
  · rintro rfl
    rw [present_of_no_output hwrite] at hrun
    exact ⟨_, hrun, rfl, rfl⟩
  · rintro name d' rfl hput
    obtain ⟨out, hpresent⟩ := present_of_output tools hwrite hput
    obtain ⟨key, hfind, hplace, hframe⟩ := Disk.exists_of_write hput
    rw [hpresent] at hrun
    exact ⟨_, key, hrun, rfl, hfind, hplace, hframe,
      hstorable.readArtifact hkeep hsettled hwrite hfind⟩
  · rintro name f d' rfl hput
    obtain ⟨out, hpresent⟩ := present_of_output tools hwrite hput
    rw [hpresent] at hrun
    exact ⟨hrun, Disk.makesOnly_of_write_error hput⟩

/-- A source text, and a disk with nothing but a file of it. -/
def oneInterface : String :=
  "interface A \x7b a: A \x7d"

def oneSource : Disk :=
  ⟨[(["m.ts"], .file oneInterface.toUTF8.toList)]⟩

/-- A configuration that is not there ends a command.  With the defaults the graph is
printed, and written to a new directory. -/
theorem commands_touch_output_only_oneSource :
    let strict : Invocation := { command := .cards, file := "m.ts", config := some "strict.yaml" }
    let print : Invocation := { command := .extract (some 2) none, file := "m.ts" }
    let write : Invocation := { command := .extract none (some "out/m.json"), file := "m.ts" }
    (∃ r, strict.run Disk.host .terminal oneSource = (r, oneSource) ∧ exitCode r = 1) ∧
    (∃ report, print.run Disk.host .terminal oneSource = (.ok report, oneSource) ∧
      report.exit = 0) ∧
    ∃ report d' g, write.run Disk.host .terminal oneSource = (.ok report, d') ∧
      d'.get? ["m.ts"] = some (.file oneInterface.toUTF8.toList) ∧
      d'.get? ["out"] = some .directory ∧
      (Disk.host.readArtifact .standard (Path.ofText "out/m.json") d').1 = .ok g := by
  intro strict print write
  obtain ⟨hfails, hextracts⟩ := commands_touch_output_only .standard keeping_standard .terminal
  have hnone : Disk.host.configFor none (Path.ofText "m.ts") oneSource = none := by decide +kernel
  have hloads : Loads Disk.host Tools.terminal.readYaml none (Path.ofText "m.ts") oneSource {}
      oneInterface :=
    ⟨by decide +kernel, by rw [Host.configured, hnone], _, rfl, by decide +kernel⟩
  obtain ⟨g, hg, -⟩ := Pass.exists_ok_of_toOption_map
    (p := extract {} (Tools.terminal.parse oneInterface)) (f := (·.models.length)) (b := 1)
    (by decide +kernel)
  refine ⟨?_, ?_, ?_⟩
  · have hread : (Disk.host.read (Path.ofText "strict.yaml") oneSource).1 = .error .missing := by
      decide +kernel
    have hconfig : ∃ message, (Disk.host.loadOptions Tools.terminal.readYaml
        (Path.ofText "strict.yaml") oneSource).1 = .error (.told message) := by
      unfold Host.loadOptions
      rw [(Disk.readOnly_host.read _).bind_apply, hread]
      exact ⟨_, rfl⟩
    obtain ⟨message, hconfig⟩ := hconfig
    have hstrict : strict.Fails Disk.host .terminal oneSource := .load (.config hconfig)
    obtain ⟨r, hrun, hexit, -⟩ := hfails Disk.host Disk.readOnly_host strict oneSource hstrict
    exact ⟨r, hrun, hexit⟩
  · obtain ⟨json, -, hprint, -⟩ := hextracts print oneSource {} oneInterface g _ _ rfl hloads hg
    obtain ⟨report, hrun, hexit, -⟩ := hprint rfl
    exact ⟨report, hrun, hexit⟩
  · obtain ⟨json, -, -, hwrite, -⟩ := hextracts write oneSource {} oneInterface g _ _ rfl hloads hg
    have hpath : Path.ofText "out/m.json" = ⟨"", ["out", "m.json"]⟩ := by decide +kernel
    have hput : oneSource.write (Path.ofText "out/m.json") (json ++ "\n").toUTF8.toList =
        (.ok (), ⟨[(["out", "m.json"], .file (json ++ "\n").toUTF8.toList), (["out"], .directory),
          (["m.ts"], .file oneInterface.toUTF8.toList)]⟩) := by
      rw [hpath]
      rfl
    obtain ⟨report, key, hrun, -, -, -, -, g', hread, -⟩ := hwrite "out/m.json" _ rfl hput
    exact ⟨report, _, g', hrun, rfl, rfl, congrArg Prod.fst hread⟩

end Extracting

end DeclGraph
