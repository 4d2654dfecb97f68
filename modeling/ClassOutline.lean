import ClassOutline.Code.Writer
import ClassOutline.Json.Code
import ClassOutline.Json.Scan
import ClassOutline.Proofs.Block.Declared
import ClassOutline.Proofs.Block.Extent
import ClassOutline.Proofs.Block.Greedy
import ClassOutline.Proofs.Checked.Scan
import ClassOutline.Proofs.Code.Actions
import ClassOutline.Proofs.Code.Getters
import ClassOutline.Proofs.Code.OwnName
import ClassOutline.Proofs.Json.Lossless
import ClassOutline.Proofs.Mask.Bytes
import ClassOutline.Proofs.Mask.Comments
import ClassOutline.Proofs.Mask.Geometry
import ClassOutline.Proofs.Member.CommonType
import ClassOutline.Proofs.Member.Queries
import ClassOutline.Proofs.Runs
import ClassOutline.Proofs.Scan.Blocks
import ClassOutline.Proofs.Scan.Caret
import ClassOutline.Proofs.Scan.Heads
import ClassOutline.Proofs.Scan.Landing
import ClassOutline.Proofs.Scan.LineRange
import ClassOutline.Proofs.Scan.Locality
import ClassOutline.Proofs.Scan.Names
import ClassOutline.Proofs.Scan.Records
import ClassOutline.Proofs.Scan.StaticMembers
import ClassOutline.Proofs.Scan.Workers
import ClassOutline.Proofs.Text.Words
import ClassOutline.Proofs.Written.Assignment
import ClassOutline.Proofs.Written.ClassFile
import ClassOutline.Proofs.Written.CodeInFile
import ClassOutline.Proofs.Written.DerivedClass
import ClassOutline.Proofs.Written.EnclosedBody
import ClassOutline.Proofs.Written.Layout
import ClassOutline.Proofs.Written.MarkedLine
import ClassOutline.Proofs.Written.MethodLine
import ClassOutline.Proofs.Written.Namespaces
import ClassOutline.Proofs.Written.NestedScope
import ClassOutline.Proofs.Written.PointerLine
import ClassOutline.Proofs.Written.TemplateAbove
import ClassOutline.Proofs.Written.ValuedLine
