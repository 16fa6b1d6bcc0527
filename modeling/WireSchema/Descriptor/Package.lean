import WireSchema.Descriptor.Converter
import WireSchema.Descriptor.File

/-!
# Package descriptors
-/

namespace WireSchema

structure PackageDescriptor where
  package : String
  files : List FileDescriptor
  converters : ConverterDescriptor

end WireSchema
