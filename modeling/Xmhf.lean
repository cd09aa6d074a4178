import Xmhf.Lib.Trans
import Xmhf.Lib.Count
import Xmhf.Lib.Word
import Xmhf.Smp.Svm
import Xmhf.Smp.Proof.SvmInv
import Xmhf.Smp.Proof.SvmQuiesce
import Xmhf.Smp.Vmx
import Xmhf.Smp.Proof.VmxInv
import Xmhf.Smp.Proof.VmxQuiesce
import Xmhf.Smp.Proof.VmxResets
import Xmhf.Smp.Proof.VmxHandover
import Xmhf.Lib.Loop
import Xmhf.Lib.Memory
import Xmhf.Platform.Paging
import Xmhf.Memprot.Proof.Fill
import Xmhf.Platform.Entry
import Xmhf.Memprot.Proof.Walk
import Xmhf.Memprot.Proof.Prot
import Xmhf.Lapic.Sipi
import Xmhf.Lapic.Vmx
import Xmhf.Lapic.Proof.VmxAirtight
import Xmhf.Hypapp.Quiesce
import Xmhf.Hypapp.Space
import Xmhf.Hypapp.Proof.Harmless
import Xmhf.Hypapp.Proof.Refine
import Xmhf.Hypapp.Proof.Isolation
import Xmhf.Lapic.Proof.VmxSipi
import Xmhf.Lapic.Svm
import Xmhf.Hypapp.Proof.Remap
import Xmhf.Lapic.Proof.Flags
import Xmhf.Hypapp.Proof.Collect
import Xmhf.Hypapp.Proof.Runs
import Xmhf.Hypapp.Proof.LowMemory
import Xmhf.Hpt.Pme
import Xmhf.Hpt.Proof.Walk
import Xmhf.Hpt.Proof.Checked
import Xmhf.Hpt.Insert
import Xmhf.Hpt.Proof.Pme
import Xmhf.Lib.Radix
import Xmhf.Hpt.Proof.Tree
import Xmhf.Hpt.Proof.Insert
import Xmhf.Hpt.Copy
import Xmhf.Hpt.Proof.Copy
import Xmhf.Boot.E820
import Xmhf.Eventhub.Vcpu
import Xmhf.Boot.Proof.E820
import Xmhf.Eventhub.Crx
import Xmhf.Eventhub.Proof.Crx
import Xmhf.Eventhub.E820
import Xmhf.Eventhub.Proof.E820
import Xmhf.Eventhub.Proof.Writes
import Xmhf.Eventhub.Proof.Enumerate
import Xmhf.Lib.Bytes
import Xmhf.Utpm.Pcr
import Xmhf.Utpm.Proof.Pcr
import Xmhf.Utpm.Seal
import Xmhf.Utpm.Proof.Seal
import Xmhf.Utpm.Proof.Refused
import Xmhf.Utpm.Proof.Quote
import Xmhf.Lib.Custody
import Xmhf.Router.Runtime
import Xmhf.Router.Proof.Runtime
import Xmhf.Hypapp.Resume
import Xmhf.Hypapp.Proof.Resume
import Xmhf.Lib.Ring
import Xmhf.Router.Forward
import Xmhf.Router.Proof.Forward
import Xmhf.Hpt.Proof.Total
import Xmhf.Hpt.Proof.Tiles
import Xmhf.Utpm.Buffers
import Xmhf.Utpm.Proof.Bounds
import Xmhf.Utpm.Proof.Size
import Xmhf.Dmaprot.Vtd
import Xmhf.Lib.Bitmap
import Xmhf.Dmaprot.Dev
import Xmhf.Dmaprot.Proof.Protect
import Xmhf.Dmaprot.DevInit
import Xmhf.Dmaprot.Proof.Early
import Xmhf.Dmaprot.Proof.Caplist
import Xmhf.Dmaprot.Dmar
import Xmhf.Lib.Records
import Xmhf.Dmaprot.Proof.Dmar
import Xmhf.Memprot.Mtrr
import Xmhf.Memprot.Proof.Mtrr
import Xmhf.Boot.Smp
import Xmhf.Boot.Proof.Smp
import Xmhf.Boot.Proof.Madt
import Xmhf.Boot.Proof.Grab
import Xmhf.Smp.Walk
import Xmhf.Smp.Proof.Walk
import Xmhf.Smp.Proof.Entries
import Xmhf.Smp.Proof.Contract
import Xmhf.Hypapp.Copy
import Xmhf.Hypapp.Proof.Copy
import Xmhf.Boot.RuntimePaging
import Xmhf.Boot.Proof.RuntimePaging
import Xmhf.Smp.Tss
import Xmhf.Smp.Nmi
import Xmhf.Smp.Proof.Nmi
import Xmhf.Smp.Proof.Tss
import Xmhf.Hpt.Proof.Returns
import Xmhf.Hpt.Proof.SetProt
import Xmhf.Hpt.Pmt
import Xmhf.Lib.Field
import Xmhf.Hpt.Proof.Codec
import Xmhf.Hpt.Proof.Index
import Xmhf.Lib.OnesComplement
import Xmhf.Router.Proof.Checksum
import Xmhf.Router.Proof.Classify
import Xmhf.Lib.CString
import Xmhf.Lib.Lines
import Xmhf.Router.Maps
import Xmhf.Router.Proof.Maps
import Xmhf.Router.Ports
import Xmhf.Router.Proof.Ports
import Xmhf.Router.Rules
import Xmhf.Router.Proof.Rules
import Xmhf.Lib.Allocator
import Xmhf.Lib.Cells
import Xmhf.Lib.Dlist
import Xmhf.Heap.Tlsf
import Xmhf.Heap.Malloc
import Xmhf.Heap.Proof.Bits
import Xmhf.Heap.Proof.Header
import Xmhf.Heap.Proof.Mapping
import Xmhf.Heap.Proof.Align
import Xmhf.Heap.Proof.Layout
import Xmhf.Heap.Proof.FreeList
import Xmhf.Heap.Proof.Window
import Xmhf.Heap.Proof.Ops
import Xmhf.Heap.Proof.Malloc
import Xmhf.Heap.Proof.Free
import Xmhf.Heap.Proof.Realloc
import Xmhf.Heap.Proof.Memalign
import Xmhf.Heap.Proof.Create
import Xmhf.Heap.Proof.Check
import Xmhf.Heap.Proof.Run
import Xmhf.Heap.Proof.Heap
import Xmhf.Lib.Mask
import Xmhf.Boot.Mtrrs
import Xmhf.Boot.Proof.Mtrrs
import Xmhf.Boot.Proof.MtrrsRestore
import Xmhf.Crypto.Hash
import Xmhf.Crypto.Hmac
import Xmhf.Crypto.Proof.Hash
import Xmhf.Crypto.Proof.Hmac
import Xmhf.Utpm.Bank
import Xmhf.Utpm.Proof.Bank
import Xmhf.Lib.BlockChain
import Xmhf.Crypto.Cbc
import Xmhf.Crypto.Proof.Cbc
