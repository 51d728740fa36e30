import Dalvik.ClassPath
import Dalvik.Proofs.Assembly.Consistency
import Dalvik.Proofs.Assembly.MarkerScan
import Dalvik.Proofs.Assembly.MemberAnnotations
import Dalvik.Proofs.Assembly.Supertypes
import Dalvik.Proofs.Builder.InsertionOrder
import Dalvik.Proofs.Builder.MemberOrder
import Dalvik.Proofs.Class.CodeOffsets
import Dalvik.Proofs.Class.InitialValues
import Dalvik.Proofs.Code.Kinds
import Dalvik.Proofs.Code.References
import Dalvik.Proofs.Cursor.Confined
import Dalvik.Proofs.Descriptor
import Dalvik.Proofs.Image.Fitting
import Dalvik.Proofs.Instruction.Branch
import Dalvik.Proofs.Layout.CountedList
import Dalvik.Proofs.Layout.Exact
import Dalvik.Proofs.Renaming.Definitions
import Dalvik.Proofs.Value.Fewest
