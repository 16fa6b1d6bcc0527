import WireSchema.HostCode.Converter
import WireSchema.Package
import WireSchema.ProtoText

/-!
# Generated files

A package generates one artifact for each of its files and, when a message is bound to a host
record, one with the conversions. Either all of them come out or none does.
-/

namespace WireSchema

/-- One generated file, held in memory. -/
structure Artifact where
  name : String
  contents : String
deriving DecidableEq, Repr

/-- Why nothing was generated. -/
inductive GenerateError where
  | schema (report : Report)
  | render (file message : String)
  | settings (message : String)

namespace GenerateError

def message : GenerateError → String
  | schema report => "Schema validation failed:\n" ++ report.text
  | render file message => "Failed to render " ++ file ++ ": " ++ message
  | settings message => "Invalid configuration: " ++ message

def ofRefusal (r : Config.Refusal) : GenerateError := settings r.message

end GenerateError

/-- How descriptors become text. -/
structure Renderers where
  file : String → FileDescriptor → Except GenerateError String
  converters : ConverterDescriptor → Except GenerateError String

/-- Schema files and host code. -/
def Renderers.standard : Renderers where
  file name d := .ok (ProtoText.ofFile name d)
  converters c := .ok (HostCode.ofConverters c)

namespace PackageDescriptor

/-- The text of each file under the name of the file. -/
def fileArtifacts (r : Renderers) (files : List FileDescriptor) :
    Except GenerateError (List Artifact) :=
  files.mapM fun d => do return ⟨d.name, ← r.file d.name d⟩

/-- The file with the conversions, if there are any. -/
def converterArtifacts (r : Renderers) (name : String) (c : ConverterDescriptor) :
    Except GenerateError (List Artifact) :=
  if c.messages.isEmpty then .ok []
  else do return [⟨name, ← r.converters c⟩]

end PackageDescriptor

/-- Builds the package and renders every artifact. -/
def Package.generate (r : Renderers) (p : Package) : Except GenerateError (List Artifact) := do
  let d ← p.build.mapError .schema
  let files ← PackageDescriptor.fileArtifacts r d.files
  let converters ← PackageDescriptor.converterArtifacts r p.config.converterFile d.converters
  return files ++ converters

end WireSchema
