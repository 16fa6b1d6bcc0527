import WireSchema.Artifact
import WireSchema.Proofs.Converters
import WireSchema.Proofs.DeclaredNames
import WireSchema.Proofs.PackageOutcome

/-!
# Generated files

A package generates a file for each of its own, under the name of that file, and one more for the
conversions when a message is bound to a host record. The names of its files are distinct in a
package that builds. The name of the conversions comes from the settings and is compared with none
of them, so it may be the name of a file.

* `Package.generate_eq_ok_iff`: a package is generated when it builds and all of it is rendered.
* `Package.artifacts_apart_iff`: the files that are generated, and when their names are distinct.
* `Package.artifacts_overwritten`: settings that are accepted and give two artifacts one name.
-/

namespace WireSchema

namespace PackageDescriptor

variable {r : Renderers}

theorem fileArtifacts_eq_ok_iff {files : List FileDescriptor} {artifacts : List Artifact} :
    fileArtifacts r files = .ok artifacts ↔
      List.Forall₂ (fun e a => a.name = e.name ∧ r.file e.name e = .ok a.contents)
        files artifacts := by
  have hstep (e : FileDescriptor) (a : Artifact) :
      (do return ⟨e.name, ← r.file e.name e⟩ : Except GenerateError Artifact) = .ok a ↔
        a.name = e.name ∧ r.file e.name e = .ok a.contents := by
    rw [bind_eq_ok_iff]
    constructor
    · rintro ⟨text, htext, ha⟩
      cases ha
      exact ⟨rfl, htext⟩
    · rintro ⟨hname, htext⟩
      exact ⟨a.contents, htext, by rw [← hname]; rfl⟩
  rw [fileArtifacts, mapM_eq_ok_iff]
  simp only [hstep]

theorem converterArtifacts_eq_ok_iff {name : String} {c : ConverterDescriptor}
    {artifacts : List Artifact} : converterArtifacts r name c = .ok artifacts ↔
      (c.messages = [] ∧ artifacts = []) ∨
        (c.messages ≠ [] ∧ ∃ text, r.converters c = .ok text ∧ artifacts = [⟨name, text⟩]) := by
  rw [converterArtifacts]
  by_cases hnone : c.messages = []
  · simp [hnone, eq_comm]
  · rw [if_neg (by simpa using hnone), bind_eq_ok_iff]
    simp only [hnone, false_and, false_or, ne_eq, not_false_eq_true, true_and]
    refine exists_congr fun text => and_congr_right fun _ => ?_
    exact ⟨fun h => by cases h; rfl, fun h => by rw [h]; rfl⟩

end PackageDescriptor

namespace Package

variable {r : Renderers} {p : Package} {d : PackageDescriptor} {artifacts : List Artifact}

/-- A package is generated just when it builds and all of it is rendered. -/
theorem generate_eq_ok_iff : p.generate r = .ok artifacts ↔
    ∃ d, p.build = .ok d ∧ ∃ files, PackageDescriptor.fileArtifacts r d.files = .ok files ∧
      ∃ converters, PackageDescriptor.converterArtifacts r p.config.converterFile d.converters =
        .ok converters ∧ artifacts = files ++ converters := by
  have hbuild (d : PackageDescriptor) :
      p.build.mapError GenerateError.schema = .ok d ↔ p.build = .ok d := by
    cases p.build with
    | error report => exact iff_of_false (fun h => by cases h) fun h => by cases h
    | ok e => exact ⟨fun h => by cases h; rfl, fun h => by cases h; rfl⟩
  simp only [generate, bind_eq_ok_iff, hbuild]
  refine exists_congr fun d => and_congr_right fun _ => ?_
  refine exists_congr fun files => and_congr_right fun _ => ?_
  refine exists_congr fun converters => and_congr_right fun _ => ?_
  exact ⟨fun h => by cases h; rfl, fun h => by rw [h]; rfl⟩

/-- Some message of the package, at any depth of any file, is bound to a host record. -/
def BindsAny (p : Package) : Prop := ∃ x ∈ p.messages, x.2.host.isSome = true

instance (p : Package) : Decidable p.BindsAny :=
  inferInstanceAs (Decidable (∃ x ∈ p.messages, x.2.host.isSome = true))

/-- A package that builds has converters just when it binds a message. -/
theorem bindsAny_iff (h : p.build = .ok d) : p.BindsAny ↔ d.converters.messages ≠ [] := by
  have hbound : p.BindsAny ↔ ∃ e ∈ d.messages, e.host.isSome = true :=
    exists_mem_congr_of_forall₂ (builtFrom h) fun x e hs => by
      obtain ⟨s, -, he⟩ := hs
      rw [he.host]
  rw [hbound, converters_eq h, ne_eq, List.filterMap_eq_nil_iff]
  simp [MessageConverter.ofMessage?, Option.isSome_iff_ne_none]

/-- The names of the files of a package stay what they are and are distinct once it builds. -/
theorem fileNames (h : p.build = .ok d) :
    d.files.map FileDescriptor.name = p.files.map File.name ∧ (p.files.map File.name).Nodup := by
  refine ⟨?_, (build_eq_ok_iff.1 h).2.1⟩
  exact (map_eq_map_of_forall₂ (value_files h).2 fun f e he => (File.name_of_value he).symm).symm

/-- **Generated files.** The artifacts of a package that is generated are the renderings of its
files, each under the name of its file and in their order, and behind them the conversions under
the name from the settings, just when a message is bound to a host record. Their names are distinct
unless conversions are generated under the name of a file. -/
theorem artifacts_apart_iff (h : p.generate r = .ok artifacts) :
    ∃ d files, p.build = .ok d ∧
      List.Forall₂ (fun f e => (f.build p.config.package (Registry.ofFiles p.files).1
        p.config.validateImport).value = some e) p.files d.files ∧
      List.Forall₂ (fun e a => r.file e.name e = .ok a.contents) d.files files ∧
      files.map Artifact.name = p.files.map File.name ∧
      ((¬ p.BindsAny ∧ artifacts = files) ∨ (p.BindsAny ∧ ∃ text,
        r.converters d.converters = .ok text ∧
          artifacts = files ++ [⟨p.config.converterFile, text⟩])) ∧
      ((artifacts.map Artifact.name).Nodup ↔
        ¬ (p.BindsAny ∧ p.config.converterFile ∈ p.files.map File.name)) := by
  obtain ⟨d, hd, files, hfiles, converters, hconverters, rfl⟩ := generate_eq_ok_iff.1 h
  rw [PackageDescriptor.fileArtifacts_eq_ok_iff] at hfiles
  rw [PackageDescriptor.converterArtifacts_eq_ok_iff] at hconverters
  obtain ⟨hkept, hdistinct⟩ := fileNames hd
  have hnames : files.map Artifact.name = p.files.map File.name := by
    rw [← hkept]
    exact (map_eq_map_of_forall₂ hfiles fun e a ha => ha.1.symm).symm
  refine ⟨d, files, hd, (value_files hd).2, hfiles.imp fun e a ha => ha.2, hnames, ?_, ?_⟩
  · rw [bindsAny_iff hd, not_ne_iff]
    rcases hconverters with ⟨hnone, rfl⟩ | ⟨hsome, text, htext, rfl⟩
    · exact .inl ⟨hnone, List.append_nil _⟩
    · exact .inr ⟨hsome, text, htext, rfl⟩
  · rw [List.map_append, hnames]
    rcases hconverters with ⟨hnone, rfl⟩ | ⟨hsome, text, htext, rfl⟩
    · rw [List.map_nil, List.append_nil]
      exact iff_of_true hdistinct fun hany => (bindsAny_iff hd).1 hany.1 hnone
    · rw [List.map_singleton, List.nodup_append_comm, List.singleton_append, List.nodup_cons,
        and_iff_left hdistinct, and_iff_right ((bindsAny_iff hd).2 hsome)]

/-- A package that generates two schema files and the conversions of a nested message: the three
names are distinct. -/
theorem artifacts_apart_iff_nested :
    let text (name : String) : Field := .leaf { head := { name }, type := .string {} }
    let line : Message := {
      name := "Line", fields := [(1, text "sku")],
      host := some { typePath := "shop::Line", fields := [⟨"sku", "String"⟩] } }
    let p : Package := {
      config := { package := "shop", converterFile := "shop.rs" }
      files := [{ name := "a.proto", messages := [{ name := "Money" }] },
        { name := "b.proto", messages := [{ name := "Order", messages := [line] }] }] }
    ∃ artifacts, p.generate .standard = .ok artifacts ∧
      artifacts.map Artifact.name = ["a.proto", "b.proto", "shop.rs"] ∧
      (artifacts.map Artifact.name).Nodup := by
  intro text line p
  obtain ⟨artifacts, hp, hnames⟩ : ∃ artifacts, p.generate .standard = .ok artifacts ∧
      artifacts.map Artifact.name = ["a.proto", "b.proto", "shop.rs"] :=
    exists_ok_of_summary (by decide +kernel)
  obtain ⟨-, -, -, -, -, -, -, hiff⟩ := artifacts_apart_iff hp
  exact ⟨artifacts, hp, hnames, hiff.2 fun hcollides => absurd hcollides.2 (by decide)⟩

/-- **Two artifacts of one name.** These settings are accepted, and the package is generated: its
schema file and its conversions are both called `a.proto`. -/
theorem artifacts_overwritten :
    let user : Message := {
      name := "User", fields := [(1, .leaf { head := { name := "id" }, type := .string {} })],
      host := some { typePath := "shop::User", fields := [⟨"id", "String"⟩] } }
    let p : Package := {
      config := { package := "shop", converterFile := "a.proto" }
      files := [{ name := "a.proto", messages := [user] }] }
    p.config.check = .ok () ∧ ∃ artifacts, p.generate .standard = .ok artifacts ∧
      artifacts.map Artifact.name = ["a.proto", "a.proto"] ∧
      ¬ (artifacts.map Artifact.name).Nodup := by
  intro user p
  obtain ⟨artifacts, hp, hnames⟩ : ∃ artifacts, p.generate .standard = .ok artifacts ∧
      artifacts.map Artifact.name = ["a.proto", "a.proto"] :=
    exists_ok_of_summary (by decide +kernel)
  exact ⟨by decide, artifacts, hp, hnames, by rw [hnames]; decide⟩

end Package
end WireSchema
