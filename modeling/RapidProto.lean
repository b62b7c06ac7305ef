import RapidProto.Wire.Contract
import RapidProto.Tree.Required
import RapidProto.Layout.Bits
import RapidProto.Stream.Agreement
import RapidProto.Reading.Profile
import RapidProto.Arena.Replay
import RapidProto.Resolver.Topological
import RapidProto.Layout.Flatten
import RapidProto.Tree.Requested
import RapidProto.Tree.Lengths
import RapidProto.Stream.Unknown
import RapidProto.Layout.Identity
import RapidProto.Layout.ModesFile
import RapidProto.Tree.Shared
import RapidProto.Wire.Varint
import RapidProto.Codegen.Siblings
import RapidProto.Front.Aggregate
import RapidProto.Front.Settings
import RapidProto.Front.Tokens
import RapidProto.Front.DepthLimit
import RapidProto.Dump.Columns
import RapidProto.Front.Diagnostics
import RapidProto.Front.Numbers
import RapidProto.Dump.Meaning
import RapidProto.Codegen.FileOrder
import RapidProto.Codegen.SharedEnums
