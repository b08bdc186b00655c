import ClassFormat.AccessFlags
import ClassFormat.Annotation
import ClassFormat.Attribute.Basic
import ClassFormat.Attribute.Decode
import ClassFormat.Bytes.Decoder
import ClassFormat.Bytes.Session
import ClassFormat.ClassFile.Basic
import ClassFormat.ClassFile.Query
import ClassFormat.ClassFile.Reading
import ClassFormat.ClassPath.Basic
import ClassFormat.ClassPath.Disk
import ClassFormat.ClassPath.Session
import ClassFormat.ConstantPool.Basic
import ClassFormat.ConstantPool.Decode
import ClassFormat.ConstantPool.Tag
import ClassFormat.Fault
import ClassFormat.FloatingPoint
import ClassFormat.Member
import ClassFormat.ReadPolicy
import ClassFormat.Signature.Basic
import ClassFormat.Signature.Equality
import ClassFormat.Signature.Erasure
import ClassFormat.Signature.Grammar
import ClassFormat.Signature.JavaName
import ClassFormat.Signature.Parser
import ClassFormat.Signature.Printer
import ClassFormat.Text.Basic
import ClassFormat.Text.Blank
import ClassFormat.Text.DecimalDigit
import ClassFormat.Text.Integer
import ClassFormat.Text.ModifiedUtf8
import ClassFormat.Text.Numeral
import ClassFormat.Text.Quoted
import ClassFormat.Text.Unprintable
import ClassFormat.Text.Utf16
import ClassFormat.Text.Utf8
import ClassFormat.Proofs.Result
import ClassFormat.Proofs.AccessFlags
import ClassFormat.Proofs.Text.Joined
import ClassFormat.Proofs.Text.Utf16
import ClassFormat.Proofs.Text.Utf8
import ClassFormat.Proofs.Text.RoundTrip
import ClassFormat.Proofs.Text.ModifiedUtf8
import ClassFormat.Proofs.Text.Pieces
import ClassFormat.Proofs.Bytes.Encoder
import ClassFormat.Proofs.Bytes.Format
import ClassFormat.Proofs.Bytes.Reading
import ClassFormat.Proofs.Bytes.Congruence
import ClassFormat.Proofs.Bytes.Extension
import ClassFormat.Proofs.Bytes.Accounting
import ClassFormat.Proofs.Bytes.Uninterpreted
import ClassFormat.Proofs.Bytes.Session
import ClassFormat.Proofs.ConstantPool.Slots
import ClassFormat.Proofs.ConstantPool.References
import ClassFormat.Proofs.ConstantPool.Layout
import ClassFormat.Proofs.ConstantPool.Representation
import ClassFormat.Proofs.ConstantPool.RoundTrip
import ClassFormat.Proofs.ConstantPool.Resolution
import ClassFormat.Proofs.Annotation.Layout
import ClassFormat.Proofs.Annotation.Reading
import ClassFormat.Proofs.Annotation.Merging
import ClassFormat.Proofs.Annotation.Repeated
import ClassFormat.Proofs.Annotation.RoundTrip
import ClassFormat.Proofs.Annotation.Nesting
import ClassFormat.Proofs.Annotation.Bounds
import ClassFormat.Proofs.FloatingPoint.Values
import ClassFormat.Proofs.FloatingPoint.Widening
import ClassFormat.Proofs.Signature.Accepted
import ClassFormat.Proofs.Signature.Derivation
import ClassFormat.Proofs.Signature.WellFormed
import ClassFormat.Proofs.Signature.Notation
import ClassFormat.Proofs.Signature.Inversion
import ClassFormat.Proofs.Signature.Readers
import ClassFormat.Proofs.Signature.Soundness
import ClassFormat.Proofs.Signature.RoundTrip
import ClassFormat.Proofs.Signature.Generics
import ClassFormat.Proofs.Signature.Erased
import ClassFormat.Proofs.Signature.Bounds
import ClassFormat.Proofs.Signature.JavaName
import ClassFormat.Proofs.Signature.Standard
import ClassFormat.Proofs.Signature.Described
import ClassFormat.Proofs.Signature.Coverage
import ClassFormat.Proofs.Attribute.Layout
import ClassFormat.Proofs.Attribute.Reading
import ClassFormat.Proofs.Attribute.Owners
import ClassFormat.Proofs.ClassFile.Layout
import ClassFormat.Proofs.ClassFile.Reading
import ClassFormat.Proofs.ClassFile.RoundTrip
import ClassFormat.Proofs.ClassFile.Congruence
import ClassFormat.Proofs.ClassFile.Delimited
import ClassFormat.Proofs.ClassFile.Offsets
import ClassFormat.Proofs.ClassFile.Uninterpreted
import ClassFormat.Proofs.ClassFile.Resolved
import ClassFormat.Proofs.ClassFile.Requests
import ClassFormat.Proofs.ClassFile.Queries
import ClassFormat.Proofs.ClassFile.Display
import ClassFormat.Proofs.ClassPath.Search
import ClassFormat.Proofs.ClassPath.Runs
import ClassFormat.Proofs.ClassPath.Tree
import ClassFormat.Proofs.ClassPath.Listing
import ClassFormat.Proofs.ClassPath.Packages
import ClassFormat.Proofs.ClassPath.Closing
