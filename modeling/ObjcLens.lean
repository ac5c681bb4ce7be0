import ObjcLens.Cli.Run
import ObjcLens.Decoder.Cache
import ObjcLens.Draft.Encode
import ObjcLens.Fixups.Chain
import ObjcLens.Glob.Compile
import ObjcLens.Header
import ObjcLens.Image.Debug
import ObjcLens.Main
import ObjcLens.ObjcType.Declaration
import ObjcLens.Proofs.Draft.Metadata
import ObjcLens.Proofs.Draft.Sections
import ObjcLens.Proofs.Fixups.InRange
import ObjcLens.Proofs.Fixups.Layout
import ObjcLens.Proofs.Fixups.Lookup
import ObjcLens.Proofs.Header.Forward
import ObjcLens.Proofs.Image.Marked
import ObjcLens.Proofs.Image.Scanned
import ObjcLens.Proofs.Image.Walked
import ObjcLens.Proofs.Method.Signature
import ObjcLens.Proofs.Model.Repeated
import ObjcLens.Proofs.Model.SecondWalk
import ObjcLens.Proofs.Model.Superclasses
import ObjcLens.Proofs.ObjcType.AllOrNothing
import ObjcLens.Proofs.ObjcType.Ambiguity
import ObjcLens.Proofs.Property.Resume
import ObjcLens.Proofs.Property.Twice
import ObjcLens.Proofs.Record.Extended
import ObjcLens.Proofs.Record.Remembered
import ObjcLens.Proofs.Record.Secrecy
import ObjcLens.Proofs.Record.Slots
import ObjcLens.Proofs.Renaming.Accessor
import ObjcLens.Proofs.Renaming.Accounted
import ObjcLens.Proofs.Renaming.AnyOrder
import ObjcLens.Proofs.Renaming.Definable
import ObjcLens.Proofs.Renaming.Generated
import ObjcLens.Proofs.Renaming.Once
import ObjcLens.Proofs.Session.Failing
import ObjcLens.Proofs.Session.Requested
import ObjcLens.Proofs.Session.SideBySide
import ObjcLens.Proofs.Slice.Archive
import ObjcLens.Proofs.Slice.Selection
import ObjcLens.Proofs.Text.NameField
import ObjcLens.Property.Attributes
import ObjcLens.Record.Metadata
import ObjcLens.Renaming.Output
import ObjcLens.Session
import ObjcLens.Slice
