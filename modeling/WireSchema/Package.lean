import WireSchema.Config
import WireSchema.Conversions
import WireSchema.Package.Types
import WireSchema.Session.File

/-!
# Packages

A package owns its files and the registry that their references resolve through. It reports types
declared twice, then file names given twice, then what each file reports; every file is checked
even when another fails.
-/

namespace WireSchema

structure Package where
  config : Config
  files : List File := []

namespace Package

def ofName (name : String) : Except InvalidName Package := do
  Name.package name
  return { config := { package := name } }

def ofConfig (config : Config) : Except Config.Refusal Package := do
  config.check
  return { config }

def add (p : Package) (file : File) : Package := { p with files := p.files ++ [file] }

/-! ## Building -/

/-- File names that an earlier file has. -/
def nameViolations (p : Package) : List Violation :=
  (repeats (p.files.map File.name)).map .duplicateName

def buildFiles (p : Package) (registry : Registry) : Built (List FileDescriptor) :=
  .list (p.files.map fun f =>
    (f.build p.config.package registry p.config.validateImport).under (scopeOf "file" f.name))

def descriptor (p : Package) (files : List FileDescriptor) : PackageDescriptor where
  package := p.config.package
  files := files
  converters := ConverterDescriptor.ofFiles p.config.package p.config.generatedModule files

def built (p : Package) : Built PackageDescriptor :=
  let (registry, violations) := Registry.ofFiles p.files
  Built.under (scopeOf "package" p.config.package) <|
    (fun _ files => p.descriptor files)
      <$> Built.check (.ofViolations (violations ++ p.nameViolations)) <*> p.buildFiles registry

/-- Runs every file in a session of its own. -/
def runFiles (p : Package) (registry : Registry) : Gathered FileDescriptor :=
  p.files.foldr (fun f g => g.add (scopeOf "file" f.name)
    (f.run p.config.package registry p.config.validateImport)) {}

/-- The descriptor of the package, or everything that is wrong with it. -/
def build (p : Package) : Except Report PackageDescriptor :=
  let (registry, violations) := Registry.ofFiles p.files
  let files := p.runFiles registry
  Report.toExcept
    ((Report.ofViolations (violations ++ p.nameViolations) ++ files.report).under
      (scopeOf "package" p.config.package))
    (p.descriptor files.values)

end Package
end WireSchema
